import ClientSynth.Route.Template
import ClientSynth.Route.Verb

/-!
# `ClientSynth.Contract.Basic` — interface contracts

A contract declares a remote interface: its identity and its methods, each with parameters, a return
type and the route that a call takes. Types are kept as written, since a contract is data and reading
them is the business of synthesis.
-/

set_option autoImplicit false

namespace ClientSynth

/-- A parameter: its name and its type as written. -/
structure Param where
  name : String
  type : String
  deriving DecidableEq, Inhabited

/-- Where the calls of a method go. -/
structure Route where
  path : String
  verb : Verb
  deriving DecidableEq, Inhabited

/-- A method of an interface. One without a route is declared but not synthesized. -/
structure Method where
  name : String
  params : List Param := []
  /-- The return type as written; absent when the method returns nothing. -/
  returns : Option String := none
  route : Option Route := none
  deriving DecidableEq, Inhabited

namespace Method

/-- Whether calls of the method have somewhere to go. -/
def isRouted (m : Method) : Bool := m.route.isSome

/-- The method with one more parameter. -/
def addParam (m : Method) (name type : String) : Method :=
  { m with params := m.params ++ [⟨name, type⟩] }

end Method

structure Contract where
  version : UInt32 := 1
  /-- The identity of the interface, which may be qualified. -/
  name : String
  description : Option String := none
  methods : List Method := []
  deriving DecidableEq, Inhabited

namespace Contract

def supportedVersion : UInt32 := 1

/-- The last segment of the identity. -/
def shortName (c : Contract) : String :=
  Text.shortName c.name

/-- The first method of a name. -/
def method? (c : Contract) (name : String) : Option Method :=
  c.methods.find? (·.name == name)

def routed (c : Contract) : List Method :=
  c.methods.filter (·.isRouted)

end Contract

end ClientSynth

import ClientSynth.Contract.Canonical
import ClientSynth.Synthesis.Assembly
import ClientSynth.Synthesis.TypeName

/-!
# `ClientSynth.Synthesis.Implementation` — synthesizing an interface

A contract is synthesized as a whole: every method with a route gets a plan, and if one cannot, there
is no implementation. Methods without a route are listed and never looked into.
-/

set_option autoImplicit false

namespace ClientSynth

/-- What a call of one method does. -/
structure Plan where
  contract : Method
  route : Route
  classification : Classification
  chain : Chain
  deriving DecidableEq, Inhabited

namespace Plan

def name (p : Plan) : String := p.contract.name

/-- Whether a call sends a body. -/
def hasBody (p : Plan) : Bool := p.classification.body.isSome

/-- Whether a call returns a value. -/
def returnsValue (p : Plan) : Bool := p.classification.payload.isSome

/-- The plan of a method with a route. -/
def ofMethod (interface : String) (m : Method) (route : Route) : Except SynthesisError Plan := do
  let classification ← Classification.ofMethod interface m route
  let chain ← m.assemble interface route classification
  return ⟨m, route, classification, chain⟩

end Plan

/-! ## Source -/

namespace Source

def indent : String := "    "

/-- A parameter in a signature: its type as it is displayed, or as written if it cannot be read. -/
def param (p : Param) : String :=
  p.name ++ ": " ++
    match TypeExpr.ofString? p.type with
    | some type => type.display
    | none => p.type

/-- The type that a signature returns: the argument of a type with one argument, whatever its name,
and `()` for everything else. -/
def result (returns : Option String) : String :=
  match (returns.bind TypeExpr.ofString?).bind (·.singleArg?) with
  | some t => if t.isUnit then TypeExpr.unitName else t.display
  | none => TypeExpr.unitName

def signature (m : Method) : String :=
  "async fn " ++ m.name ++ "(" ++ ", ".intercalate ("&self" :: m.params.map param) ++
    ") -> Result<" ++ result m.returns ++ ", InvocationError>"

/-- The lines for a method with a plan. -/
def planLines (p : Plan) : List String :=
  [indent ++ "// " ++ p.route.verb.word ++ " " ++ p.route.path,
   indent ++ signature p.contract ++ " \x7b"] ++
  p.chain.render.map (fun line => indent ++ indent ++ line) ++
  [indent ++ "\x7d"]

/-- The lines for a method: by the first plan of its name, or a comment if there is none. -/
def methodLines (plans : List Plan) (m : Method) : List String :=
  match plans.find? (·.name == m.name) with
  | some p => planLines p
  | none => [indent ++ "// not routed: " ++ signature m]

/-- Groups of lines with an empty line between neighbours. -/
def spaced : List (List String) → List String
  | [] => []
  | [g] => g
  | g :: gs => g ++ "" :: spaced gs

/-- The lines before the methods. -/
def header (c : Contract) (typeName fingerprint : String) : List String :=
  ["// Generated by rest-synth. Do not edit.",
   "// interface: " ++ c.name,
   "// fingerprint: " ++ fingerprint,
   ""] ++
  (match c.description with
    | some text => (Text.lines text.toList).map fun line => "/// " ++ String.ofList line
    | none => []) ++
  ["pub struct " ++ typeName ++ " \x7b",
   indent ++ "transports: Arc<dyn TransportResolver>,",
   indent ++ "codec: Arc<dyn Codec>,",
   "\x7d",
   "",
   "#[async_trait]",
   "impl " ++ c.shortName ++ " for " ++ typeName ++ " \x7b"]

/-- Some texts as lines, each with its line break. -/
def text (lines : List String) : String :=
  String.join (lines.map (· ++ "\n"))

/-- The source of an implementation. -/
def emit (c : Contract) (typeName fingerprint : String) (plans : List Plan) : String :=
  text (header c typeName fingerprint ++ spaced (c.methods.map (methodLines plans)) ++ ["\x7d"])

end Source

/-! ## Implementations -/

/-- The implementation of an interface. -/
structure Implementation where
  typeName : String
  interface : String
  fingerprint : String
  /-- The plans of the methods with a route, in the order of the contract. -/
  plans : List Plan
  /-- The names of the methods without one. -/
  unrouted : List String
  source : String
  deriving DecidableEq, Inhabited

namespace Implementation

/-- The plan of a method, the first of its name. -/
def plan? (impl : Implementation) (name : String) : Option Plan :=
  impl.plans.find? (·.name == name)

end Implementation

namespace Contract

/-- The first method name that occurs a second time, given the names that occurred before. -/
def repeatedName? (seen : List String) : List Method → Option String
  | [] => none
  | m :: ms => if m.name ∈ seen then some m.name else repeatedName? (m.name :: seen) ms

/-- The plans of the methods with a route; an error for the first that has none. -/
def plans (interface : String) : List Method → Except SynthesisError (List Plan)
  | [] => .ok []
  | m :: ms =>
    match m.route with
    | none => plans interface ms
    | some route => do return (← Plan.ofMethod interface m route) :: (← plans interface ms)

/-- The names of the methods without a route. -/
def unroutedNames (c : Contract) : List String :=
  (c.methods.filter (!·.isRouted)).map (·.name)

/-- The implementation of a contract. -/
def synthesize (c : Contract) : Except SynthesisError Implementation :=
  match repeatedName? [] c.methods with
  | some name => .error (.duplicateMethod c.name name)
  | none => do
    let ps ← plans c.name c.methods
    if ps.isEmpty then throw (.nothingToSynthesize c.name)
    let typeName := TypeName.ofInterface c.name
    let fingerprint := c.fingerprint
    return {
      typeName
      interface := c.name
      fingerprint
      plans := ps
      unrouted := c.unroutedNames
      source := Source.emit c typeName fingerprint ps }

end Contract

end ClientSynth

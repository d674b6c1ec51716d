import ClientSynth.Contract.Basic
import ClientSynth.Text.Blank

/-!
# `ClientSynth.Contract.Validation` — the shape of a contract

A contract is well shaped when its version is supported, none of its texts is blank, and no method
has two parameters of one name. `violations` lists every way in which a contract is not, in the order
of the contract, so that all can be reported at once.

Whether a well-shaped contract can be synthesized is another matter: two methods of one name, or a
type that cannot be read, are no violations.
-/

set_option autoImplicit false

namespace ClientSynth

/-- What can be wrong with one method. -/
inductive MethodViolation where
  | blankName
  | blankReturns
  | blankParamName
  | repeatedParam (name : String)
  | blankParamType (name : String)
  | blankPath
  deriving DecidableEq, Repr

/-- What can be wrong with a contract. Methods are counted from 1. -/
inductive Violation where
  | unsupportedVersion (version : UInt32)
  | blankName
  | blankDescription
  | inMethod (number : Nat) (methodName : String) (violation : MethodViolation)
  deriving DecidableEq, Repr

namespace MethodViolation

/-- The violations of a parameter list, given the names that occurred before. A blank name is never
a repeated one. -/
def ofParams (seen : List String) : List Param → List MethodViolation
  | [] => []
  | p :: ps =>
    (if Text.IsBlank p.name then [blankParamName]
      else if p.name ∈ seen then [repeatedParam p.name]
      else []) ++
    (if Text.IsBlank p.type then [blankParamType p.name] else []) ++
    ofParams (if Text.IsBlank p.name then seen else p.name :: seen) ps

/-- The violations of a method. -/
def ofMethod (m : Method) : List MethodViolation :=
  (if Text.IsBlank m.name then [blankName] else []) ++
  (match m.returns with
    | some type => if Text.IsBlank type then [blankReturns] else []
    | none => []) ++
  ofParams [] m.params ++
  (match m.route with
    | some route => if Text.IsBlank route.path then [blankPath] else []
    | none => [])

def message : MethodViolation → String
  | blankName => "name cannot be empty"
  | blankReturns => "`returns` cannot be empty (omit it for no return value)"
  | blankParamName => "parameter name cannot be empty"
  | repeatedParam name => "duplicate parameter `" ++ name ++ "`"
  | blankParamType name => "parameter `" ++ name ++ "` has an empty type"
  | blankPath => "route `path` cannot be empty"

end MethodViolation

namespace Violation

/-- The violations of methods, the first of which has the number `number`. -/
def ofMethods (number : Nat) : List Method → List Violation
  | [] => []
  | m :: ms =>
    (MethodViolation.ofMethod m).map (inMethod number m.name) ++ ofMethods (number + 1) ms

/-- How a message names a method: by its number, and by its name unless that is blank. -/
def methodLabel (number : Nat) (name : String) : String :=
  if Text.IsBlank name then "method " ++ toString number
  else "method " ++ toString number ++ " (`" ++ name ++ "`)"

def message : Violation → String
  | unsupportedVersion version =>
    "version " ++ toString version.toNat ++ " is not supported (expected " ++
      toString Contract.supportedVersion.toNat ++ ")"
  | blankName => "name cannot be empty"
  | blankDescription => "description cannot be empty"
  | inMethod number name violation => methodLabel number name ++ ": " ++ violation.message

/-- Messages as a numbered list, one a line. -/
def numbered (number : Nat) : List Violation → List String
  | [] => []
  | v :: vs => ("  " ++ toString number ++ ". " ++ v.message) :: numbered (number + 1) vs

/-- The report of some violations. -/
def report (vs : List Violation) : String :=
  "\n".intercalate ("Contract validation failed:" :: numbered 1 vs)

end Violation

namespace Contract

/-- Everything that is wrong with the shape of a contract. -/
def violations (c : Contract) : List Violation :=
  (if c.version = supportedVersion then [] else [.unsupportedVersion c.version]) ++
  (if Text.IsBlank c.name then [.blankName] else []) ++
  (match c.description with
    | some text => if Text.IsBlank text then [.blankDescription] else []
    | none => []) ++
  Violation.ofMethods 1 c.methods

/-- A contract that is well shaped. -/
def IsValid (c : Contract) : Prop :=
  c.violations = []

instance (c : Contract) : Decidable c.IsValid :=
  inferInstanceAs (Decidable (_ = _))

end Contract

end ClientSynth

import ClientSynth.Contract.Basic
import ClientSynth.Synthesis.Error
import ClientSynth.TypeExpr.Parser

/-!
# `ClientSynth.Synthesis.Classification` — what a call sends and what it gets back

Of the parameters of a method only the first may be the request body, and it is unless it is a whole
segment of the route path. Of the return type only the payload counts: the type inside an asynchronous
wrapper, and nothing for `()`.
-/

set_option autoImplicit false

namespace ClientSynth

/-- The parameter that is sent as the body of a request. -/
structure BodyParam where
  index : UInt16
  name : String
  type : TypeExpr
  deriving DecidableEq, Inhabited

/-- What a call of a method sends as a body and reads from the response. -/
structure Classification where
  body : Option BodyParam
  payload : Option TypeExpr
  deriving DecidableEq, Inhabited

namespace Classification

/-- The names of the wrappers that mark an asynchronous result. -/
def wrappers : List String := ["Future", "Task"]

/-- The payload of a return type: nothing for `()` and for a wrapper of nothing or of `()`, and the
argument of a wrapper. Other types have none. -/
def payload? (type : TypeExpr) : Option (Option TypeExpr) :=
  if type.isUnit then some none
  else if type.name ∈ wrappers then
    match type.args with
    | [] => some none
    | [t] => some (if t.isUnit then none else some t)
    | _ => none
  else none

/-- The type that a call of a method returns, if it returns something. -/
def payloadOf (interface : String) (m : Method) : Except SynthesisError (Option TypeExpr) :=
  match m.returns with
  | none => .ok none
  | some written =>
    match TypeExpr.ofString? written with
    | none => .error (.invalidTypeExpression interface m.name written)
    | some type =>
      match payload? type with
      | some payload => .ok payload
      | none =>
        .error (.unsupportedReturnShape interface m.name (String.ofList (Text.trim written.toList)))

/-- The parameter that a call of a method sends as the body. -/
def bodyOf (interface : String) (m : Method) (route : Route) :
    Except SynthesisError (Option BodyParam) :=
  match m.params with
  | [] => .ok none
  | first :: _ =>
    if Template.hasSegment route.path first.name then .ok none
    else
      match TypeExpr.ofString? first.type with
      | none => .error (.invalidTypeExpression interface m.name first.type)
      | some type => .ok (some ⟨0, first.name, type⟩)

/-- The classification of a method with a route. -/
def ofMethod (interface : String) (m : Method) (route : Route) :
    Except SynthesisError Classification := do
  let body ← bodyOf interface m route
  let payload ← payloadOf interface m
  return ⟨body, payload⟩

end Classification

end ClientSynth

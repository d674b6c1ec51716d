import ClientSynth.Chain.Basic
import ClientSynth.Chain.Scope
import ClientSynth.Synthesis.Error

/-!
# `ClientSynth.Chain.Builder` — building a chain frame by frame

A builder keeps the frames of a chain and its scope in step: each frame that is pushed declares its
output under a fresh name. `finish` lets only sound chains out.
-/

set_option autoImplicit false

namespace ClientSynth

/-- A chain that is being built. -/
structure ChainBuilder where
  interface : String
  method : String
  arguments : List Variable
  scope : Scope
  frames : List Frame := []
  deriving Inhabited

namespace ChainBuilder

def start (interface method : String) (arguments : List Variable) : ChainBuilder :=
  { interface, method, arguments, scope := Scope.ofArguments arguments }

/-- The reference to the output of the next frame. -/
def nextIndex (b : ChainBuilder) : UInt16 :=
  b.frames.length.toUInt16

/-- One more frame, whose output is given by a name to start from and a type. -/
def push (b : ChainBuilder) (op : Op) (inputs : List Ref) (output : Option (String × TypeExpr)) :
    ChainBuilder :=
  match output with
  | none => { b with frames := b.frames ++ [⟨op, inputs, none⟩] }
  | some (base, type) =>
    let (scope, v) := b.scope.declare base type b.nextIndex
    { b with scope, frames := b.frames ++ [⟨op, inputs, some v⟩] }

/-- The latest frame output of a type, which must exist. -/
def require (b : ChainBuilder) (type : TypeExpr) : Except SynthesisError Ref :=
  match b.scope.resolveOutput? type with
  | some r => .ok r
  | none =>
    .error (.invalidChain b.interface b.method
      ["no frame produces a value of type " ++ type.display])

def chain (b : ChainBuilder) : Chain :=
  ⟨b.method, b.arguments, b.frames⟩

/-- The chain, if nothing is wrong with it. -/
def finish (b : ChainBuilder) : Except SynthesisError Chain :=
  if b.chain.issues = [] then .ok b.chain
  else .error (.invalidChain b.interface b.method (b.chain.issues.map (·.message)))

end ChainBuilder

end ClientSynth

import ClientSynth.Chain.Builder

/-!
# `ClientSynth.Proofs.Chain.Builder` — what a push changes

A chain is built by pushing frames, and a frame finds its inputs with `require`. Everything about the
chain that comes out follows from two facts, so the scope is never looked into after this file:

> a push adds one frame at the end, and after it `require` finds that frame for the type of its
> output and what it found before for all other types.

The names that outputs get do not matter to either, so frames are compared by their `shape`, which is
all of a frame but that name. A list of shapes is laid by one push each (`lay`), and what holds of a
push holds of all of them.
-/

set_option autoImplicit false

namespace ClientSynth

/-- A frame but for the name of its output: what it does, what it reads, and the type of what it
leaves. -/
def Frame.shape (f : Frame) : Op × List Ref × Option TypeExpr :=
  (f.op, f.inputs, f.output.map (·.type))

/-- The name that the output of a frame gets, or gets a number after. -/
def FrameKind.baseName : FrameKind → String
  | .acquireTransport => "transport"
  | .buildUrl => "url"
  | .serializeBody => "body"
  | .buildRequest => "request"
  | .invokeTransport => "response"
  | .deserializeResponse => "result"
  -- A frame that returns leaves nothing to be named.
  | .returnValue => ""

/-! ## Scopes -/

namespace Scope

variable (s : Scope) (base : String) (type : TypeExpr) (frame : UInt16)

@[simp]
theorem resolveOutput?_declare_self :
    (s.declare base type frame).1.resolveOutput? type = some (.frame frame) := by
  simp [declare, resolveOutput?, findLast?, isOutputOf]

theorem resolveOutput?_declare_of_ne {other : TypeExpr} (h : type ≠ other) :
    (s.declare base type frame).1.resolveOutput? other = s.resolveOutput? other := by
  simp [declare, resolveOutput?, findLast?, isOutputOf, h]

/-- Outputs of frames are no parameters, whatever they are named. -/
@[simp]
theorem resolveArgument?_declare (name : String) :
    (s.declare base type frame).1.resolveArgument? name = s.resolveArgument? name := by
  simp [declare, resolveArgument?, argumentOf?]

end Scope

/-! ## Builders -/

namespace ChainBuilder

variable (b : ChainBuilder) (op : Op) (inputs : List Ref)

@[simp]
theorem interface_push (output : Option (String × TypeExpr)) :
    (b.push op inputs output).interface = b.interface := by
  cases output <;> rfl

@[simp]
theorem method_push (output : Option (String × TypeExpr)) :
    (b.push op inputs output).method = b.method := by
  cases output <;> rfl

@[simp]
theorem arguments_push (output : Option (String × TypeExpr)) :
    (b.push op inputs output).arguments = b.arguments := by
  cases output <;> rfl

@[simp]
theorem shapes_push (output : Option (String × TypeExpr)) :
    (b.push op inputs output).frames.map Frame.shape =
      b.frames.map Frame.shape ++ [(op, inputs, output.map (·.2))] := by
  cases output with
  | none => simp [push, Frame.shape]
  | some o => simp [push, Frame.shape, Scope.declare]

@[simp]
theorem length_frames_push (output : Option (String × TypeExpr)) :
    (b.push op inputs output).frames.length = b.frames.length + 1 := by
  cases output <;> simp [push]

@[simp]
theorem resolveArgument?_push (output : Option (String × TypeExpr)) (name : String) :
    (b.push op inputs output).scope.resolveArgument? name = b.scope.resolveArgument? name := by
  cases output with
  | none => rfl
  | some o => exact Scope.resolveArgument?_declare b.scope o.1 o.2 b.nextIndex name

/-- The frame that was pushed last is found for the type of its output. -/
theorem require_push_self (base : String) (type : TypeExpr) :
    (b.push op inputs (some (base, type))).require type = .ok (.frame b.nextIndex) := by
  simp [push, require]

/-- For other types, a push changes nothing. -/
theorem require_push_of_ne (base : String) {type other : TypeExpr} (h : type ≠ other) :
    (b.push op inputs (some (base, type))).require other = b.require other := by
  simp [push, require, Scope.resolveOutput?_declare_of_ne _ _ _ _ h]

/-! ### Laying shapes -/

/-- One more frame of a shape, whose output is named after what the frame does. -/
def lay (b : ChainBuilder) (shape : Op × List Ref × Option TypeExpr) : ChainBuilder :=
  b.push shape.1 shape.2.1 (shape.2.2.map (shape.1.kind.baseName, ·))

section Laying

variable (shapes : List (Op × List Ref × Option TypeExpr))

/-- What holds after one more shape holds after all of them. -/
theorem foldl_lay_of_lay {P : ChainBuilder → Prop} (hlay : ∀ b shape, P b → P (b.lay shape)) :
    ∀ {shapes : List (Op × List Ref × Option TypeExpr)} {b : ChainBuilder},
      P b → P (shapes.foldl lay b)
  | [], _, h => h
  | shape :: _, b, h => foldl_lay_of_lay hlay (b := b.lay shape) (hlay b shape h)

@[simp]
theorem interface_foldl_lay : (shapes.foldl lay b).interface = b.interface :=
  foldl_lay_of_lay (P := fun b' => b'.interface = b.interface)
    (fun b' _ h => (b'.interface_push _ _ _).trans h) rfl

@[simp]
theorem method_foldl_lay : (shapes.foldl lay b).method = b.method :=
  foldl_lay_of_lay (P := fun b' => b'.method = b.method)
    (fun b' _ h => (b'.method_push _ _ _).trans h) rfl

@[simp]
theorem arguments_foldl_lay : (shapes.foldl lay b).arguments = b.arguments :=
  foldl_lay_of_lay (P := fun b' => b'.arguments = b.arguments)
    (fun b' _ h => (b'.arguments_push _ _ _).trans h) rfl

@[simp]
theorem shapes_foldl_lay :
    (shapes.foldl lay b).frames.map Frame.shape = b.frames.map Frame.shape ++ shapes := by
  induction shapes generalizing b with
  | nil => simp
  | cons shape shapes ih =>
    have hlay : (b.lay shape).frames.map Frame.shape = b.frames.map Frame.shape ++ [shape] := by
      rw [lay, shapes_push, Option.map_map]
      simp [Function.comp_def]
    rw [List.foldl_cons, ih, hlay, List.append_assoc, List.singleton_append]

end Laying

/-- What `finish` lets out is the chain that was built, and nothing is wrong with it. -/
theorem finish_eq_ok_iff {c : Chain} : b.finish = .ok c ↔ b.chain.issues = [] ∧ b.chain = c := by
  unfold finish
  split
  · rename_i h
    simp [h]
  · rename_i h
    simp [h]

theorem finish_eq_error_iff {e : SynthesisError} :
    b.finish = .error e ↔
      b.chain.issues ≠ [] ∧
        .invalidChain b.interface b.method (b.chain.issues.map (·.message)) = e := by
  unfold finish
  split
  · rename_i h
    simp [h]
  · rename_i h
    simp [h]

end ChainBuilder

end ClientSynth

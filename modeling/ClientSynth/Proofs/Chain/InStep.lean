import ClientSynth.Proofs.Chain.Naming
import ClientSynth.Proofs.Chain.Soundness

/-!
# `ClientSynth.Proofs.Chain.InStep` — a scope and the frames that it is for

A builder keeps what it has built twice, as frames and as a scope. That they say the same is one
invariant (`InStep`), which each push keeps as long as there are positions left:

> a reference to a frame stands for the output of that frame, the latest output of a type is that of the
> last frame that leaves such a value, and every output has a name of its own.

Nothing is asked of what is pushed: the inputs may refer to anything, types may repeat, and names may be
taken. Only `finish` looks at the inputs (`finish_pushAll_isOk_iff`).
-/

set_option autoImplicit false

namespace ClientSynth

/-- What a builder is given for a frame. -/
structure Push where
  op : Op
  inputs : List Ref
  /-- A name to start from, and a type. -/
  output : Option (String × TypeExpr)

/-- The frame that is pushed, but for the name of its output. -/
def Push.shape (p : Push) : Op × List Ref × Option TypeExpr :=
  (p.op, p.inputs, p.output.map (·.2))

/-- Whether the push at `k` can read a reference: it is a parameter that exists, or an earlier push with
an output. -/
def Ref.IsPushed (count : Nat) (ps : List Push) (k : Nat) : Ref → Prop
  | .argument a => a.toNat < count
  | .frame j => j.toNat < k ∧ ∃ p, ps[j.toNat]? = some p ∧ p.output ≠ none

/-! ## Scopes -/

namespace Scope

theorem source_of_mem_argumentEntries {e : ScopeEntry} :
    ∀ {start : Nat} {vs : List Variable}, e ∈ argumentEntries start vs → ∃ a, e.source = .argument a
  | _, [], h => absurd h List.not_mem_nil
  | start, v :: vs, h => by
    rcases List.mem_cons.mp h with rfl | h
    · exact ⟨_, rfl⟩
    · exact source_of_mem_argumentEntries h

/-- A reference to a frame stands for nothing as long as there are only parameters. -/
theorem lookup?_ofArguments (vs : List Variable) (i : UInt16) :
    (ofArguments vs).lookup? (.frame i) = none := by
  rw [lookup?, Option.map_eq_none_iff, List.find?_eq_none]
  intro e he
  obtain ⟨a, ha⟩ := source_of_mem_argumentEntries he
  simp [ha]

theorem resolveOutput?_ofArguments (vs : List Variable) (type : TypeExpr) :
    (ofArguments vs).resolveOutput? type = none := by
  rw [resolveOutput?, findLast?, Option.map_eq_none_iff, List.find?_eq_none]
  intro e he
  obtain ⟨a, ha⟩ := source_of_mem_argumentEntries (List.mem_reverse.mp he)
  simp [isOutputOf, ha]

theorem lookup?_declare (s : Scope) (base : String) (type : TypeExpr) (frame : UInt16) (r : Ref) :
    (s.declare base type frame).1.lookup? r =
      (s.lookup? r).or (if r = .frame frame then some (s.declare base type frame).2 else none) := by
  rw [lookup?, lookup?, declare, List.find?_append, Option.map_or, List.find?_singleton]
  by_cases h : r = .frame frame <;> simp [h, eq_comm]

end Scope

/-! ## One push -/

namespace ChainBuilder

variable {b : ChainBuilder} {type : TypeExpr} {i : Nat}

/-- Whether the frame at a position leaves a value of a type. -/
def LeavesAt (b : ChainBuilder) (type : TypeExpr) (i : Nat) : Prop :=
  ∃ f v, b.frames[i]? = some f ∧ f.output = some v ∧ v.type = type

/-- Whether the frame at a position is the last that leaves a value of a type. -/
def LeavesLast (b : ChainBuilder) (type : TypeExpr) (i : Nat) : Prop :=
  b.LeavesAt type i ∧ ∀ k, b.LeavesAt type k → k ≤ i

/-- Whether the scope finds the last frame that leaves a value of a type, or none if none does. -/
def FindsLast (b : ChainBuilder) (type : TypeExpr) : Prop :=
  (∃ i : UInt16, b.scope.resolveOutput? type = some (.frame i) ∧ b.LeavesLast type i.toNat) ∨
    (b.scope.resolveOutput? type = none ∧ ∀ i, ¬ b.LeavesAt type i)

/-- The scope of a builder says of frames what the frames say. -/
structure InStep (b : ChainBuilder) : Prop where
  lookup : ∀ i : UInt16, b.scope.lookup? (.frame i) = b.frames[i.toNat]?.bind (·.output)
  last : ∀ type, b.FindsLast type
  named : b.Named

theorem LeavesAt.lt (h : b.LeavesAt type i) : i < b.frames.length := by
  obtain ⟨f, -, hf, -⟩ := h
  exact (List.getElem?_eq_some_iff.mp hf).1

theorem inStep_start (interface method : String) (arguments : List Variable) :
    (start interface method arguments).InStep where
  lookup i := Scope.lookup?_ofArguments arguments i
  last type := Or.inr ⟨Scope.resolveOutput?_ofArguments arguments type,
    fun _ h => absurd h.lt (Nat.not_lt_zero _)⟩
  named := named_start interface method arguments

section Push

variable {b' : ChainBuilder} {f : Frame}

theorem leavesAt_snoc (hframes : b'.frames = b.frames ++ [f]) :
    b'.LeavesAt type i ↔
      b.LeavesAt type i ∨ (i = b.frames.length ∧ ∃ v, f.output = some v ∧ v.type = type) := by
  unfold LeavesAt
  rw [hframes]
  by_cases hi : i = b.frames.length
  · subst hi
    simp
  · rw [getElem?_snoc_of_ne hi]
    simp [hi]

/-- A frame that leaves nothing of a type changes nothing for that type. -/
theorem FindsLast.snoc (h : b.FindsLast type) (hframes : b'.frames = b.frames ++ [f])
    (hnot : ¬ ∃ v, f.output = some v ∧ v.type = type)
    (hscope : b'.scope.resolveOutput? type = b.scope.resolveOutput? type) : b'.FindsLast type := by
  have hat : ∀ k, b'.LeavesAt type k ↔ b.LeavesAt type k := by
    intro k
    rw [leavesAt_snoc hframes]
    exact or_iff_left fun h => hnot h.2
  simpa only [FindsLast, LeavesLast, hat, hscope] using h

/-- A frame that leaves something of a type is the last that does. -/
theorem leavesLast_snoc (hframes : b'.frames = b.frames ++ [f])
    (hf : ∃ v, f.output = some v ∧ v.type = type) : b'.LeavesLast type b.frames.length := by
  refine ⟨(leavesAt_snoc hframes).mpr (Or.inr ⟨rfl, hf⟩), fun k hk => ?_⟩
  rcases (leavesAt_snoc hframes).mp hk with hk | ⟨rfl, -⟩
  · exact Nat.le_of_lt hk.lt
  · exact Nat.le_refl _

theorem toNat_nextIndex (hroom : b.frames.length < 65536) : b.nextIndex.toNat = b.frames.length := by
  rw [nextIndex, Nat.toUInt16_eq, UInt16.toNat_ofNat']
  exact Nat.mod_eq_of_lt hroom

/-- A reference to the next frame is one to the position after those that are taken. -/
theorem eq_nextIndex_iff (hroom : b.frames.length < 65536) {i : UInt16} :
    Ref.frame i = .frame b.nextIndex ↔ i.toNat = b.frames.length := by
  rw [← toNat_nextIndex hroom, UInt16.toNat_inj, Ref.frame.injEq]

/-- The outputs of frames with one more. -/
theorem output_snoc (frames : List Frame) (f : Frame) (k : Nat) :
    (frames ++ [f])[k]?.bind (·.output) =
      (frames[k]?.bind (·.output)).or (if k = frames.length then f.output else none) := by
  by_cases hk : k = frames.length
  · subst hk
    simp
  · rw [getElem?_snoc_of_ne hk, if_neg hk, Option.or_none]

/-- **A push keeps the two in step**, if there is a position left for its frame. -/
theorem InStep.push (h : b.InStep) (hroom : b.frames.length < 65536) (op : Op) (inputs : List Ref)
    (output : Option (String × TypeExpr)) : (b.push op inputs output).InStep := by
  refine ⟨fun i => ?lookup, fun type => ?last, h.named.push op inputs output⟩
  case lookup =>
    cases output with
    | none =>
      have hframes : (b.push op inputs none).frames = b.frames ++ [⟨op, inputs, none⟩] := rfl
      rw [hframes, output_snoc, ite_self, Option.or_none]
      exact h.lookup i
    | some o =>
      have hframes : (b.push op inputs (some o)).frames =
          b.frames ++ [⟨op, inputs, some (b.scope.declare o.1 o.2 b.nextIndex).2⟩] := rfl
      have hscope : (b.push op inputs (some o)).scope = (b.scope.declare o.1 o.2 b.nextIndex).1 := rfl
      rw [hframes, hscope, output_snoc, Scope.lookup?_declare, h.lookup]
      simp only [eq_nextIndex_iff hroom]
  case last =>
    cases output with
    | none => exact (h.last type).snoc (f := ⟨op, inputs, none⟩) rfl (by simp) rfl
    | some o =>
      have hframes : (b.push op inputs (some o)).frames =
          b.frames ++ [⟨op, inputs, some (b.scope.declare o.1 o.2 b.nextIndex).2⟩] := rfl
      have hscope : (b.push op inputs (some o)).scope = (b.scope.declare o.1 o.2 b.nextIndex).1 := rfl
      by_cases ht : o.2 = type
      · subst ht
        refine Or.inl ⟨b.nextIndex, by rw [hscope, Scope.resolveOutput?_declare_self], ?_⟩
        rw [toNat_nextIndex hroom]
        exact leavesLast_snoc hframes ⟨_, rfl, rfl⟩
      · have hnot : ¬ ∃ v, some (b.scope.declare o.1 o.2 b.nextIndex).2 = some v ∧ v.type = type := by
          rintro ⟨v, hv, hvt⟩
          cases hv
          exact ht hvt
        exact (h.last type).snoc hframes hnot
          (by rw [hscope, Scope.resolveOutput?_declare_of_ne _ _ _ _ ht])

end Push

/-! ## Rows of pushes -/

def pushAll (b : ChainBuilder) (ps : List Push) : ChainBuilder :=
  ps.foldl (fun b p => b.push p.op p.inputs p.output) b

theorem InStep.pushAll (ps : List Push) :
    ∀ {b : ChainBuilder}, b.InStep → b.frames.length + ps.length ≤ 65536 → (b.pushAll ps).InStep := by
  induction ps with
  | nil => exact fun h _ => h
  | cons p ps ih =>
    intro b h hroom
    rw [List.length_cons] at hroom
    refine ih (h.push (by omega) p.op p.inputs p.output) ?_
    rw [length_frames_push]
    omega

@[simp]
theorem shapes_pushAll (b : ChainBuilder) (ps : List Push) :
    (b.pushAll ps).frames.map Frame.shape = b.frames.map Frame.shape ++ ps.map Push.shape := by
  induction ps generalizing b with
  | nil => simp [pushAll]
  | cons p ps ih =>
    show ((b.push p.op p.inputs p.output).pushAll ps).frames.map Frame.shape = _
    rw [ih, shapes_push, List.append_assoc, List.map_cons]
    rfl

/-- What is pushed does not change whom the frames are for. -/
theorem heading_pushAll (b : ChainBuilder) (ps : List Push) :
    (b.pushAll ps).interface = b.interface ∧ (b.pushAll ps).method = b.method ∧
      (b.pushAll ps).arguments = b.arguments := by
  induction ps generalizing b with
  | nil => exact ⟨rfl, rfl, rfl⟩
  | cons p ps ih =>
    obtain ⟨hinterface, hmethod, harguments⟩ := ih (b.push p.op p.inputs p.output)
    exact ⟨hinterface.trans (interface_push ..), hmethod.trans (method_push ..),
      harguments.trans (arguments_push ..)⟩

/-- A row of pushes can be sealed exactly when each of them reads what is there, and the last of them
and no other returns. -/
theorem finish_pushAll_isOk_iff (interface method : String) (arguments : List Variable)
    (ps : List Push) :
    (∃ c, ((start interface method arguments).pushAll ps).finish = .ok c) ↔
      ps ≠ [] ∧ ∀ k p, ps[k]? = some p →
        (∀ r ∈ p.inputs, r.IsPushed arguments.length ps k) ∧
          (p.op.kind = .returnValue ↔ k + 1 = ps.length) := by
  have hissues : ((start interface method arguments).pushAll ps).chain.issues =
      Issue.all arguments.length (ps.map fun p => Issue.unnamed p.shape) := by
    obtain ⟨-, -, harguments⟩ := heading_pushAll (start interface method arguments) ps
    rw [Chain.issues, chain, harguments, ← Issue.all_unnamed, shapes_pushAll]
    simp [start, Function.comp_def]
  have havailable : ∀ (k : Nat) (r : Ref),
      r.IsAvailable arguments.length (ps.map fun p => Issue.unnamed p.shape) k ↔
        r.IsPushed arguments.length ps k := by
    intro k r
    cases r with
    | argument a => exact Iff.rfl
    | frame j =>
      refine and_congr_right fun _ => ?_
      cases hp : ps[j.toNat]? with
      | none => simp [hp]
      | some p => cases ho : p.output <;> simp [hp, ho, Issue.unnamed, Push.shape]
  simp only [finish_eq_ok_iff, exists_and_left, exists_eq', and_true, hissues, Issue.all_eq_nil_iff,
    havailable, List.length_map, ne_eq, List.map_eq_nil_iff]
  refine and_congr_right fun _ => forall_congr' fun k => ?_
  cases hp : ps[k]? with
  | none => simp [hp]
  | some p =>
    simp only [List.getElem?_map, hp, Option.map_some, Option.some.injEq, forall_eq']
    exact Iff.rfl

/-! ## The whole of a builder -/

/-- **Scope and frames stay in step.** Whatever is pushed, as long as there are no more pushes than
positions: the frames are those that were pushed; a reference to a frame stands in the scope for the
output of that frame, and has its name in a chain that is sealed; every output has a name of its own,
which no parameter has; a value of a type is required of the last frame that leaves one, and if there is
none, that is the error; and the chain can be sealed exactly when each push reads what is there, and the
last of them and no other returns. -/
theorem pushAll_inStep (interface method : String) (arguments : List Variable) (ps : List Push)
    (hps : ps.length ≤ 65536) :
    let b := (start interface method arguments).pushAll ps
    b.frames.map Frame.shape = ps.map Push.shape ∧
    (∀ i : UInt16, b.scope.lookup? (.frame i) = b.frames[i.toNat]?.bind (·.output)) ∧
    (∀ c, b.finish = .ok c → ∀ i : UInt16,
      c.nameOf? (.frame i) = (b.scope.lookup? (.frame i)).map (·.name)) ∧
    (b.chain.outputNames.Nodup ∧
      ∀ name ∈ b.chain.outputNames, name ∉ arguments.map (·.name)) ∧
    (∀ type,
      (∃ i : UInt16, b.require type = .ok (.frame i) ∧ b.LeavesLast type i.toNat) ∨
        (b.require type = .error (.invalidChain interface method
            ["no frame produces a value of type " ++ type.display]) ∧
          ∀ i, ¬ b.LeavesAt type i)) ∧
    ((∃ c, b.finish = .ok c) ↔
      ps ≠ [] ∧ ∀ k p, ps[k]? = some p →
        (∀ r ∈ p.inputs, r.IsPushed arguments.length ps k) ∧
          (p.op.kind = .returnValue ↔ k + 1 = ps.length)) := by
  intro b
  have hstep : b.InStep :=
    (inStep_start interface method arguments).pushAll ps (by simpa [start] using hps)
  obtain ⟨hinterface, hmethod, harguments⟩ := heading_pushAll (start interface method arguments) ps
  refine ⟨shapes_pushAll .., hstep.lookup, fun c hc i => ?_, ⟨hstep.named.nodup, ?_⟩, fun type => ?_,
    finish_pushAll_isOk_iff interface method arguments ps⟩
  · obtain ⟨-, rfl⟩ := (finish_eq_ok_iff _).mp hc
    rw [hstep.lookup]
    rfl
  · have hfresh := hstep.named.fresh
    rw [harguments] at hfresh
    exact hfresh
  · rcases hstep.last type with ⟨i, hi, hlast⟩ | ⟨hnone, hnot⟩
    · exact Or.inl ⟨i, by rw [require, hi], hlast⟩
    · refine Or.inr ⟨?_, hnot⟩
      rw [require, hnone, hinterface, hmethod]
      rfl

/-- A parameter and two outputs that all ask for one name, the second of them after the first. -/
def clashing : List Push :=
  [⟨.acquireTransport "IThings", [], some ("url", .named "String")⟩,
    ⟨.buildUrl "/{url}" [⟨"url", some 0⟩], [.argument 0], some ("url", .named "String")⟩,
    ⟨.returnValue, [.frame 1], none⟩]

theorem pushAll_clashing :
    let b := (start "IThings" "get" [⟨"url", .named "String"⟩]).pushAll clashing
    clashing.length ≤ 65536 ∧
    b.chain.outputNames = ["url1", "url2"] ∧ b.chain.outputNames.Nodup ∧
    (∃ i : UInt16, b.require (.named "String") = .ok (.frame i) ∧
      b.LeavesLast (.named "String") i.toNat) ∧
    ∃ c, b.finish = .ok c ∧
      ∀ i : UInt16, c.nameOf? (.frame i) = (b.scope.lookup? (.frame i)).map (·.name) := by
  intro b
  have hlength : clashing.length ≤ 65536 := by decide
  have hnames : b.chain.outputNames = ["url1", "url2"] := by decide +kernel
  have hfound : b.require (.named "String") = .ok (.frame 1) := by decide +kernel
  have hreads : ∀ k p, clashing[k]? = some p →
      (∀ r ∈ p.inputs, r.IsPushed 1 clashing k) ∧
        (p.op.kind = .returnValue ↔ k + 1 = clashing.length) := by
    intro k p hp
    match k, hp with
    | 0, rfl => simp [clashing, Op.kind]
    | 1, rfl => simp [clashing, Op.kind, Ref.IsPushed]
    | 2, rfl => simp [clashing, Op.kind, Ref.IsPushed]
  obtain ⟨-, -, hname, ⟨hnodup, -⟩, hlast, hfinish⟩ :=
    pushAll_inStep "IThings" "get" [⟨"url", .named "String"⟩] clashing hlength
  refine ⟨hlength, hnames, hnodup, (hlast (.named "String")).resolve_right fun h => ?_, ?_⟩
  · exact absurd (hfound.symm.trans h.1) (by simp)
  · obtain ⟨c, hc⟩ := hfinish.mpr ⟨by decide, hreads⟩
    exact ⟨c, hc, hname c hc⟩

end ChainBuilder

end ClientSynth

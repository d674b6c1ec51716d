import ClientSynth.Proofs.Chain.Builder

/-!
# `ClientSynth.Proofs.Chain.Soundness` — what a chain without issues has

`Issue.all` goes over the frames and reports what it finds. Read as a condition on the frames, a report
that is empty says where every input comes from:

> every input is a parameter that exists or the output of an earlier frame, and the last frame is the
> one that returns.

The names of outputs do not come into it (`all_unnamed`).
-/

set_option autoImplicit false

namespace ClientSynth

/-- Whether the frame at `i` can read a reference: it is a parameter that exists, or an earlier frame
with an output. -/
def Ref.IsAvailable (count : Nat) (frames : List Frame) (i : Nat) : Ref → Prop
  | .argument a => a.toNat < count
  | .frame j => j.toNat < i ∧ ∃ g v, frames[j.toNat]? = some g ∧ g.output = some v

namespace Issue

section Conditions

variable {count : Nat}

theorem isAvailable_append {before rest : List Frame} {r : Ref} :
    r.IsAvailable count (before ++ rest) before.length ↔
      r.IsAvailable count before before.length := by
  cases r with
  | argument a => exact Iff.rfl
  | frame j =>
    refine and_congr_right fun hj => ?_
    rw [List.getElem?_append_left hj]

theorem ofInput_eq_none_iff {before : List Frame} {kind : FrameKind} {r : Ref} :
    ofInput count before before.length kind r = none ↔
      r.IsAvailable count before before.length := by
  cases r with
  | argument a =>
    unfold ofInput Ref.IsAvailable
    by_cases h : a.toNat < count <;> simp [h]
  | frame j =>
    unfold ofInput Ref.IsAvailable
    rcases Nat.lt_trichotomy j.toNat before.length with hlt | heq | hgt
    · have hne : j.toNat ≠ before.length := by omega
      have hnot : ¬ before.length < j.toNat := by omega
      cases ho : before[j.toNat].output <;> simp [hlt, hne, hnot, ho]
    · simp [heq]
    · have hne : j.toNat ≠ before.length := by omega
      have hnot : ¬ j.toNat < before.length := by omega
      simp [hgt, hne, hnot]

theorem ofPlace_eq_nil_iff {i : Nat} {kind : FrameKind} {isLast : Bool} :
    ofPlace i kind isLast = [] ↔ (kind = .returnValue ↔ isLast = true) := by
  unfold ofPlace
  cases isLast <;> by_cases h : kind = .returnValue <;> simp [h]

theorem ofFrames_eq_nil_iff :
    ∀ (rest before : List Frame),
      ofFrames count before rest = [] ↔
        ∀ k f, rest[k]? = some f →
          (∀ r ∈ f.inputs, r.IsAvailable count (before ++ rest) (before.length + k)) ∧
            (f.kind = .returnValue ↔ k + 1 = rest.length)
  | [], before => by simp [ofFrames]
  | g :: rest, before => by
    have hhere : g.inputs.filterMap (ofInput count before before.length g.kind) = [] ↔
        ∀ r ∈ g.inputs, r.IsAvailable count (before ++ g :: rest) (before.length + 0) := by
      rw [List.filterMap_eq_nil_iff]
      exact forall₂_congr fun r _ => ofInput_eq_none_iff.trans isAvailable_append.symm
    have hplace : ofPlace before.length g.kind rest.isEmpty = [] ↔
        (g.kind = .returnValue ↔ 0 + 1 = (g :: rest).length) := by
      rw [ofPlace_eq_nil_iff]
      cases rest <;> simp
    -- The frames before are those that the check has passed, and `g` is the next of them.
    have hlater := ofFrames_eq_nil_iff rest (before ++ [g])
    rw [ofFrames, List.append_eq_nil_iff, List.append_eq_nil_iff, hhere, hplace, hlater]
    constructor
    · rintro ⟨⟨hinputs, hkind⟩, hrest⟩ k f hf
      cases k with
      | zero =>
        obtain rfl : g = f := by simpa using hf
        exact ⟨hinputs, hkind⟩
      | succ k =>
        have h := hrest k f (by simpa using hf)
        simpa [Nat.add_assoc, Nat.add_comm 1] using h
    · intro h
      refine ⟨h 0 g rfl, fun k f hf => ?_⟩
      have h := h (k + 1) f (by simpa using hf)
      simpa [Nat.add_assoc, Nat.add_comm 1] using h

/-- **Nothing is wrong with frames exactly when** every input of each can be read there, and the frame
that returns is the last one. -/
theorem all_eq_nil_iff {frames : List Frame} :
    all count frames = [] ↔
      frames ≠ [] ∧ ∀ i f, frames[i]? = some f →
        (∀ r ∈ f.inputs, r.IsAvailable count frames i) ∧
          (f.kind = .returnValue ↔ i + 1 = frames.length) := by
  cases frames with
  | nil => simp [all]
  | cons f rest =>
    simpa [all] using ofFrames_eq_nil_iff (f :: rest) []

end Conditions

/-! ## Shapes -/

section Shapes

variable (count : Nat)

/-- The frame of a shape, whose output has no name of its own. -/
def unnamed (shape : Op × List Ref × Option TypeExpr) : Frame :=
  ⟨shape.1, shape.2.1, shape.2.2.map (⟨"", ·⟩)⟩

theorem ofInput_unnamed (before : List Frame) (kind : FrameKind) :
    ofInput count (before.map fun f => unnamed f.shape) before.length kind =
      ofInput count before before.length kind := by
  funext r
  cases r with
  | argument a => rfl
  | frame j =>
    cases hg : before[j.toNat]? with
    | none => simp [ofInput, hg]
    | some g => simp [ofInput, hg, unnamed, Frame.shape, Frame.kind]

theorem ofFrames_unnamed :
    ∀ (rest before : List Frame),
      ofFrames count (before.map fun f => unnamed f.shape) (rest.map fun f => unnamed f.shape) =
        ofFrames count before rest
  | [], _ => rfl
  | g :: rest, before => by
    have hlater := ofFrames_unnamed rest (before ++ [g])
    rw [List.map_append, List.map_singleton] at hlater
    have hinput := ofInput_unnamed count before g.kind
    have hkind : (unnamed g.shape).kind = g.kind := rfl
    have hinputs : (unnamed g.shape).inputs = g.inputs := rfl
    have hlast : (rest.map fun f => unnamed f.shape).isEmpty = rest.isEmpty := by cases rest <;> rfl
    rw [List.map_cons, ofFrames, ofFrames, hkind, hinputs, hlast, List.length_map, hinput, hlater]

/-- The names of outputs do not matter to what is wrong with frames. -/
theorem all_unnamed (frames : List Frame) :
    all count ((frames.map Frame.shape).map unnamed) = all count frames := by
  rw [List.map_map]
  cases frames with
  | nil => rfl
  | cons f rest => exact ofFrames_unnamed count (f :: rest) []

end Shapes

end Issue

end ClientSynth

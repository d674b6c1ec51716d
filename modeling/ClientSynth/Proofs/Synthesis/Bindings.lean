import ClientSynth.Proofs.Route.Filling
import ClientSynth.Proofs.Synthesis.Accepted

/-!
# `ClientSynth.Proofs.Synthesis.Bindings` — which parameter fills a placeholder

A binding names its parameter by a position of 16 bits. As long as no method has more parameters than
such positions can tell apart, this is the position of the first parameter of the name of the
placeholder (`resolveArgument?_ofArguments`), and reading an argument there is the same as looking it
up by name (`getElem?_resolveArgument?`).
-/

set_option autoImplicit false

namespace ClientSynth

/-! ## Parameters in scope -/

namespace Scope

theorem findSome?_argumentEntries (name : String) :
    ∀ (start : Nat) (vs : List Variable),
      (argumentEntries start vs).findSome? (argumentOf? name) =
        (vs.findIdx? (·.name == name)).map fun i => (start + i).toUInt16
  | _, [] => rfl
  | start, v :: vs => by
    rw [argumentEntries, List.findSome?_cons, List.findIdx?_cons,
      findSome?_argumentEntries name (start + 1) vs]
    by_cases h : v.name = name
    · simp [argumentOf?, h]
    · have hb : (v.name == name) = false := by simpa using h
      simp [argumentOf?, h, hb, Function.comp_def, Nat.add_comm 1, Nat.add_assoc]

/-- The position of a name among the parameters is that of the first of them that has it. -/
theorem resolveArgument?_ofArguments (vs : List Variable) (name : String) :
    (ofArguments vs).resolveArgument? name =
      (vs.findIdx? (·.name == name)).map Nat.toUInt16 := by
  simp [resolveArgument?, ofArguments, findSome?_argumentEntries]

/-- Reading at the position of a name is looking the name up, if there are no more parameters than
positions. -/
theorem getElem?_resolveArgument? {α : Type} {ps : List Param} {vs : List Variable} {as : List α}
    (hvs : List.Forall₂ Param.Reads ps vs) (hps : ps.length ≤ 65536)
    (has : as.length = ps.length) (name : String) :
    ((ofArguments vs).resolveArgument? name).bind (fun i => as[i.toNat]?) =
      ((ps.zip as).find? (·.1.name == name)).map (·.2) := by
  have hnames : vs.findIdx? (·.name == name) = ps.findIdx? (·.name == name) := by
    have h := congrArg (List.findIdx? (· == name)) (Method.names_of_reads hvs)
    simpa [Function.comp_def] using h
  rw [find?_zip (fun p : Param => p.name == name) ps as has.symm, resolveArgument?_ofArguments,
    hnames]
  cases hi : ps.findIdx? (·.name == name) with
  | none => rfl
  | some i =>
    have hlt : i < ps.length := (List.findIdx?_eq_some_iff_findIdx_eq.mp hi).1
    -- The only place where the number of parameters matters.
    have hround : i.toUInt16.toNat = i := by
      rw [Nat.toUInt16_eq, UInt16.toNat_ofNat']
      exact Nat.mod_eq_of_lt (Nat.lt_of_lt_of_le hlt hps)
    simp [hround]

end Scope

/-! ## Bindings -/

namespace Method

/-- The binding of a placeholder is found under its name. -/
theorem find?_bindings {scope : Scope} {path name : String} (h : name ∈ Template.names path) :
    (bindings scope path).find? (·.placeholder == name) =
      some ⟨name, scope.resolveArgument? name⟩ := by
  have hmem : name ∈ Template.placeholders path := Template.mem_placeholders_iff.mpr h
  rw [bindings, List.find?_map]
  cases hf : (Template.placeholders path).find? (fun p => p == name) with
  | none =>
    rw [List.find?_eq_none] at hf
    exact absurd (beq_self_eq_true name) (hf name hmem)
  | some p =>
    have hp : p = name := by simpa using List.find?_some hf
    subst hp
    show ((Template.placeholders path).find? fun q => q == p).map _ = some _
    rw [hf]
    rfl

/-- The bindings of a path by the parameters alone: no type plays a part in them. -/
theorem bindings_of_reads {ps : List Param} {vs : List Variable}
    (hvs : List.Forall₂ Param.Reads ps vs) (path : String) :
    bindings (Scope.ofArguments vs) path =
      (Template.placeholders path).map fun name =>
        ⟨name, (ps.findIdx? (·.name == name)).map Nat.toUInt16⟩ := by
  refine List.map_congr_left fun name _ => ?_
  have hnames := congrArg (List.findIdx? (· == name)) (names_of_reads hvs)
  rw [List.findIdx?_map, List.findIdx?_map] at hnames
  rw [Scope.resolveArgument?_ofArguments]
  exact congrArg (fun i => Binding.mk name (i.map Nat.toUInt16)) hnames

/-- Bindings name parameters that exist. -/
theorem mem_boundInputs_bindings (vs : List Variable) (path : String) {r : Ref}
    (h : r ∈ boundInputs (bindings (Scope.ofArguments vs) path)) :
    ∃ a : UInt16, r = .argument a ∧ a.toNat < vs.length := by
  simp only [boundInputs, bindings, List.mem_filterMap, List.mem_map] at h
  obtain ⟨_, ⟨p, -, rfl⟩, h⟩ := h
  rw [Scope.resolveArgument?_ofArguments, Option.map_map, Option.map_eq_some_iff] at h
  obtain ⟨i, hi, rfl⟩ := h
  have hlt : i < vs.length := (List.findIdx?_eq_some_iff_findIdx_eq.mp hi).1
  refine ⟨i.toUInt16, rfl, ?_⟩
  rw [Nat.toUInt16_eq, UInt16.toNat_ofNat']
  exact Nat.lt_of_le_of_lt (Nat.mod_le _ _) hlt

end Method

end ClientSynth

import ClientSynth.Chain.Scope
import Mathlib.Order.Bounds.Basic

/-!
# `ClientSynth.Proofs.Chain.FreshNames` — the names that a scope gives

A variable that is declared gets the name that was asked for, or that name with a number if it is taken.
That there is such a number, and which one it is, is

> `declare_fresh`: it is the least one that makes a new name, and no greater than the scope has entries.

The search forgets a name once it has found it in use, so at most as many numbers are passed over as
there are names. It is one fewer, since the name without a number is in use too and is never passed over
(`numberedName_spec`).
-/

set_option autoImplicit false

namespace ClientSynth.Scope

/-! ## The search -/

theorem append_toString_ne (base : String) (n : Nat) : base ++ toString n ≠ base := by
  intro h
  have hchars := congrArg String.toList h
  simp [Nat.repr] at hchars

/-- **What the search for a number finds.** All numbers that it passes over make names in use. -/
theorem numberedName_spec {base : String} {used : List String} (hbase : base ∈ used) (n : Nat) :
    ∃ k, n ≤ k ∧ k < n + used.length ∧ numberedName base used n = base ++ toString k ∧
      ∀ m, n ≤ m → m < k → base ++ toString m ∈ used := by
  fun_induction numberedName base used n with
  | case1 used n candidate h ih =>
    have hkept : base ∈ used.erase candidate :=
      (List.mem_erase_of_ne (append_toString_ne base n).symm).mpr hbase
    obtain ⟨k, hk, hlt, hname, hused⟩ := ih hkept
    have hlength := List.length_erase_of_mem h
    have hpos := List.length_pos_of_mem h
    refine ⟨k, by omega, by omega, hname, ?_⟩
    intro m hm hmk
    rcases Nat.eq_or_lt_of_le hm with rfl | hm
    · exact h
    · exact List.mem_of_mem_erase (hused m hm hmk)
  | case2 used n candidate h =>
    have hpos := List.length_pos_of_mem hbase
    refine ⟨n, Nat.le_refl n, by omega, rfl, ?_⟩
    intro m hm hmk
    omega

theorem freshName_of_notMem {base : String} {used : List String} (h : base ∉ used) :
    freshName base used = base := by
  rw [freshName, if_neg h]

theorem freshName_of_mem {base : String} {used : List String} (h : base ∈ used) :
    ∃ n ≤ used.length, IsLeast {n | 1 ≤ n ∧ base ++ toString n ∉ used} n ∧
      freshName base used = base ++ toString n := by
  obtain ⟨n, hn, hlt, hname, hused⟩ := numberedName_spec h 1
  have hfresh : freshName base used = base ++ toString n := by rw [freshName, if_pos h, hname]
  have hnew : base ++ toString n ∉ used := hfresh ▸ freshName_notMem base used
  refine ⟨n, by omega, ⟨⟨hn, hnew⟩, ?_⟩, hfresh⟩
  intro m hm
  by_contra hmn
  exact hm.2 (hused m hm.1 (by omega))

/-! ## Declarations -/

theorem isSome_resolve?_iff (s : Scope) (name : String) :
    (s.resolve? name).isSome = true ↔ name ∈ s.names := by
  unfold resolve? findLast? names
  simp

theorem resolve?_declare (s : Scope) (base : String) (type : TypeExpr) (frame : UInt16)
    (name : String) :
    (s.declare base type frame).1.resolve? name =
      if name = freshName base s.names then some (.frame frame) else s.resolve? name := by
  unfold resolve? findLast? declare
  rw [List.reverse_append, List.reverse_singleton, List.singleton_append, List.find?_cons]
  by_cases h : name = freshName base s.names
  · simp [h]
  · have hne : (freshName base s.names == name) = false := by simpa using Ne.symm h
    simp [h, hne]

/-- **A declared variable has a name of its own.** It is the name that was asked for if no entry has
that, and else that name with the least number from 1 on with which no entry has it, and the entries
are at least as many. The variable is found by its name, and what was found before by another name is
found as before. -/
theorem declare_fresh (s : Scope) (base : String) (type : TypeExpr) (frame : UInt16) :
    let after := (s.declare base type frame).1
    let name := (s.declare base type frame).2.name
    name ∉ s.names ∧
    (base ∉ s.names → name = base) ∧
    (base ∈ s.names → ∃ n ≤ s.entries.length,
      IsLeast {n | 1 ≤ n ∧ base ++ toString n ∉ s.names} n ∧ name = base ++ toString n) ∧
    after.resolve? name = some (.frame frame) ∧
    ∀ other ∈ s.names, (s.resolve? other).isSome = true ∧ after.resolve? other = s.resolve? other := by
  intro after name
  have hnew : name ∉ s.names := freshName_notMem base s.names
  refine ⟨hnew, freshName_of_notMem, ?_, ?_, ?_⟩
  · intro h
    obtain ⟨n, hn, hleast, hname⟩ := freshName_of_mem h
    have hlength : s.names.length = s.entries.length := List.length_map _
    exact ⟨n, hlength ▸ hn, hleast, hname⟩
  · show (s.declare base type frame).1.resolve? (freshName base s.names) = some (.frame frame)
    rw [resolve?_declare, if_pos rfl]
  · intro other hother
    refine ⟨(isSome_resolve?_iff s other).mpr hother, ?_⟩
    show (s.declare base type frame).1.resolve? other = s.resolve? other
    rw [resolve?_declare, if_neg]
    rintro rfl
    exact hnew hother

/-- Two parameters of one name, and one that has the name with the number 1. -/
theorem declare_fresh_numbered :
    ∃ s : Scope, s.names = ["url", "url1", "url"] ∧
      (s.declare "body" (.named "String") 1).2.name = "body" ∧
      (s.declare "url" (.named "String") 1).2.name = "url2" ∧
      (s.declare "url" (.named "String") 1).1.resolve? "url" = some (.argument 2) := by
  let text := TypeExpr.named "String"
  let s := ofArguments [⟨"url", text⟩, ⟨"url1", text⟩, ⟨"url", text⟩]
  have hnames : s.names = ["url", "url1", "url"] := rfl
  obtain ⟨-, hfree, -⟩ := declare_fresh s "body" text 1
  obtain ⟨-, -, htaken, -, hkept⟩ := declare_fresh s "url" text 1
  rw [hnames] at hfree htaken hkept
  obtain ⟨n, -, ⟨⟨hn, hnew⟩, hleast⟩, hname⟩ := htaken (by decide)
  have htwo : n ≤ 2 := hleast ⟨by decide, by decide⟩
  have hone : n ≠ 1 := by
    rintro rfl
    exact hnew (by decide)
  obtain rfl : n = 2 := by omega
  refine ⟨s, hnames, hfree (by decide), hname, ?_⟩
  exact (hkept "url" (by decide)).2.trans (by decide)

end ClientSynth.Scope

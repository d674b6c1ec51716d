import ClientSynth.Chain.Frame

/-!
# `ClientSynth.Chain.Scope` — what is in scope while a chain is built

A scope lists the variables that a chain has so far, with where each comes from: the parameters
first, then the outputs of frames in order. Parameters may repeat a name; a variable that is declared
never does, since `freshName` numbers it until it is new (`freshName_notMem`).
-/

set_option autoImplicit false

namespace ClientSynth

/-- A variable and where its value comes from. -/
structure ScopeEntry where
  var : Variable
  source : Ref
  deriving DecidableEq, Inhabited

/-- The variables in scope, the oldest first. -/
structure Scope where
  entries : List ScopeEntry := []
  deriving DecidableEq, Inhabited

namespace Scope

/-! ## Fresh names -/

/-- The first of `base` with `n`, `base` with `n + 1`, … that is none of the names in use. A name
that was found in use is not looked for again, so the search ends with the names. -/
def numberedName (base : String) (used : List String) (n : Nat) : String :=
  let candidate := base ++ toString n
  if candidate ∈ used then numberedName base (used.erase candidate) (n + 1) else candidate
termination_by used.length
decreasing_by
  have := List.length_pos_of_mem (by assumption : candidate ∈ used)
  rw [List.length_erase_of_mem (by assumption)]
  omega

/-- `base` itself if it is new, and else `base` with the least number from 1 on that makes it so. -/
def freshName (base : String) (used : List String) : String :=
  if base ∈ used then numberedName base used 1 else base

theorem append_toString_inj {base : String} {m n : Nat}
    (h : base ++ toString m = base ++ toString n) : m = n := by
  have hd : (Nat.toDigits 10 m) = Nat.toDigits 10 n := by
    have := congrArg String.toList h
    simpa [Nat.repr] using this
  rw [← Nat.ofDigitChars_toDigits (b := 10) (n := m) (by decide) (by decide), hd,
    Nat.ofDigitChars_toDigits (by decide) (by decide)]

/-- What `numberedName` finds is `base` with a number from `n` on. -/
theorem numberedName_eq (base : String) (used : List String) (n : Nat) :
    ∃ k, n ≤ k ∧ numberedName base used n = base ++ toString k := by
  fun_induction numberedName base used n with
  | case1 used n candidate h ih =>
    obtain ⟨k, hk, he⟩ := ih
    exact ⟨k, Nat.le_of_succ_le hk, he⟩
  | case2 used n candidate h => exact ⟨n, Nat.le_refl n, rfl⟩

theorem numberedName_notMem (base : String) (used : List String) (n : Nat) :
    numberedName base used n ∉ used := by
  fun_induction numberedName base used n with
  | case1 used n candidate h ih =>
    intro hmem
    obtain ⟨k, hk, he⟩ := numberedName_eq base (used.erase candidate) (n + 1)
    refine ih ((List.mem_erase_of_ne ?_).2 hmem)
    rw [he]
    intro heq
    have := append_toString_inj heq
    omega
  | case2 used n candidate h => exact h

/-- **A fresh name is none of the names in use.** -/
theorem freshName_notMem (base : String) (used : List String) : freshName base used ∉ used := by
  rw [freshName]
  split
  · exact numberedName_notMem base used 1
  · assumption

/-! ## Scopes -/

def names (s : Scope) : List String :=
  s.entries.map (·.var.name)

/-- The entries of parameters, the first of which has the position `start`. -/
def argumentEntries (start : Nat) : List Variable → List ScopeEntry
  | [] => []
  | v :: vs => ⟨v, .argument start.toUInt16⟩ :: argumentEntries (start + 1) vs

/-- The scope of a method that has not done anything yet. -/
def ofArguments (arguments : List Variable) : Scope :=
  ⟨argumentEntries 0 arguments⟩

/-- The scope with the output of a frame, and the variable that it became. -/
def declare (s : Scope) (base : String) (type : TypeExpr) (frame : UInt16) : Scope × Variable :=
  let v : Variable := ⟨freshName base s.names, type⟩
  (⟨s.entries ++ [⟨v, .frame frame⟩]⟩, v)

@[simp]
theorem names_declare (s : Scope) (base : String) (type : TypeExpr) (frame : UInt16) :
    (s.declare base type frame).1.names = s.names ++ [freshName base s.names] := by
  simp [declare, names]

/-- The latest entry that satisfies a test. -/
def findLast? (s : Scope) (p : ScopeEntry → Bool) : Option ScopeEntry :=
  s.entries.reverse.find? p

/-- The latest value of a name. -/
def resolve? (s : Scope) (name : String) : Option Ref :=
  (s.findLast? (·.var.name == name)).map (·.source)

/-- The latest value of a type. -/
def resolveType? (s : Scope) (type : TypeExpr) : Option Ref :=
  (s.findLast? fun e => decide (e.var.type = type)).map (·.source)

/-- The position of the parameter that an entry is for, if it is for one of this name. -/
def argumentOf? (name : String) (e : ScopeEntry) : Option UInt16 :=
  match e.source with
  | .argument i => if e.var.name = name then some i else none
  | .frame _ => none

/-- The position of the first parameter of a name. -/
def resolveArgument? (s : Scope) (name : String) : Option UInt16 :=
  s.entries.findSome? (argumentOf? name)

/-- Whether an entry is the output of a frame and has a type. -/
def isOutputOf (type : TypeExpr) (e : ScopeEntry) : Bool :=
  match e.source with
  | .frame _ => decide (e.var.type = type)
  | .argument _ => false

/-- The latest frame output of a type; parameters do not count. -/
def resolveOutput? (s : Scope) (type : TypeExpr) : Option Ref :=
  (s.findLast? (isOutputOf type)).map (·.source)

/-- The variable that a reference stands for. -/
def lookup? (s : Scope) (source : Ref) : Option Variable :=
  (s.entries.find? fun e => decide (e.source = source)).map (·.var)

def contains (s : Scope) (name : String) : Bool :=
  s.names.contains name

end Scope

end ClientSynth

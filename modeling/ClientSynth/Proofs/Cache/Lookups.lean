import ClientSynth.Proofs.Cache.Views
import Mathlib.Algebra.BigOperators.Group.List.Basic
import Mathlib.Data.List.Infix

/-!
# `ClientSynth.Proofs.Cache.Lookups` — one lookup, and rows of them

A lookup that is not interrupted goes one of three ways, and `LookUp` says for each what becomes of the
cache. `lookUp_spec` is the only place where a lookup is unfolded; what rows of lookups do follows from
the three cases.

> `theorem lookUp_spec (h : cache.Settled) : LookUp cache l (cache.lookUp l).1 (cache.lookUp l).2`
-/

set_option autoImplicit false

namespace ClientSynth

/-! ## Counters add up -/

namespace Counters

instance : Add Counters where
  add a b :=
    ⟨a.hits + b.hits, a.misses + b.misses, a.failures + b.failures, a.conflicts + b.conflicts⟩

instance : Zero Counters where
  zero := {}

variable (a b : Counters)

@[simp]
theorem hits_add : (a + b).hits = a.hits + b.hits := rfl

@[simp]
theorem misses_add : (a + b).misses = a.misses + b.misses := rfl

@[simp]
theorem failures_add : (a + b).failures = a.failures + b.failures := rfl

@[simp]
theorem conflicts_add : (a + b).conflicts = a.conflicts + b.conflicts := rfl

@[ext]
theorem ext {a b : Counters} (hits : a.hits = b.hits) (misses : a.misses = b.misses)
    (failures : a.failures = b.failures) (conflicts : a.conflicts = b.conflicts) : a = b := by
  cases a
  cases b
  simp_all

instance : AddCommMonoid Counters where
  add_assoc a b c := by ext <;> simp [Nat.add_assoc]
  zero_add a := by ext <;> exact Nat.zero_add _
  add_zero a := by ext <;> rfl
  add_comm a b := by ext <;> simp [Nat.add_comm]
  nsmul := nsmulRec

def ofHit : Counters := { hits := 1 }

def ofConflict : Counters := { conflicts := 1 }

/-- The bill of a lookup that ran synthesis. -/
def ofRun : Outcome → Counters
  | .ok _ => { misses := 1 }
  | .error _ => { misses := 1, failures := 1 }

end Counters

/-- A lookup: who looks which contract up. -/
structure Lookup where
  caller : Nat
  contract : Contract
  deriving DecidableEq, Inhabited

namespace Lookup

def interface (l : Lookup) : String := l.contract.name

def fingerprint (l : Lookup) : String := l.contract.fingerprint

/-- Lookups of contracts by callers with numbers from `n` on. -/
def numberedFrom (n : Nat) : List Contract → List Lookup
  | [] => []
  | c :: cs => ⟨n, c⟩ :: numberedFrom (n + 1) cs

/-- Lookups of contracts, each by a caller with the number of its position. -/
def numbered (contracts : List Contract) : List Lookup := numberedFrom 0 contracts

end Lookup

/-- What an entry answers to a lookup of a contract. -/
def CacheEntry.Answers (entry : CacheEntry) (c : Contract) (outcome : Outcome) : Prop :=
  if entry.fingerprint = c.fingerprint then entry.outcome = some outcome
  else outcome = .error (Cache.conflict c entry.fingerprint)

theorem CacheEntry.answers_outcome (c : Contract) (outcome : Outcome) :
    CacheEntry.Answers ⟨c.fingerprint, some outcome⟩ c outcome := by
  rw [Answers, if_pos rfl]

theorem CacheEntry.answers_conflict {entry : CacheEntry} {c : Contract}
    (h : entry.fingerprint ≠ c.fingerprint) :
    entry.Answers c (.error (Cache.conflict c entry.fingerprint)) := by
  rw [Answers, if_neg h]

theorem CacheEntry.Answers.unique {entry : CacheEntry} {c : Contract} {o o' : Outcome}
    (h : entry.Answers c o) (h' : entry.Answers c o') : o = o' := by
  unfold Answers at h h'
  split at h
  · rw [if_pos (by assumption)] at h'
    exact Option.some.inj (h.symm.trans h')
  · rw [if_neg (by assumption)] at h'
    exact h.trans h'.symm

/-- Lookups with what they came to, the oldest first. -/
abbrev History := List (Lookup × Outcome)

namespace Cache

theorem counters_countMiss (cache : Cache) (outcome : Outcome) :
    (cache.countMiss outcome).counters = cache.counters + .ofRun outcome := by
  cases outcome <;> rfl

@[simp]
theorem entry?_countMiss (cache : Cache) (outcome : Outcome) (other : String) :
    entry? (cache.countMiss outcome) other = cache.entry? other := by
  cases outcome <;> rfl

@[simp]
theorem typeNames_countMiss (cache : Cache) (outcome : Outcome) :
    (cache.countMiss outcome).typeNames = cache.typeNames := by
  cases outcome <;> rfl

@[simp]
theorem known_countMiss (cache : Cache) (outcome : Outcome) :
    (cache.countMiss outcome).known = cache.known := by
  cases outcome <;> rfl

/-! ## One lookup -/

def lookUp (cache : Cache) (l : Lookup) : Outcome × Cache :=
  cache.getOrSynthesize l.caller l.contract

/-- What a lookup of an interface without an entry comes to. -/
def firstOutcome (cache : Cache) (l : Lookup) : Outcome :=
  match cache.rival? l.interface with
  | some owner => .error (nameTaken l.interface owner)
  | none => l.contract.synthesize.map (⟨l.caller, ·⟩)

theorem firstOutcome_of_free {cache : Cache} {l : Lookup} {i : Implementation}
    (hr : cache.rival? l.interface = none) (hi : l.contract.synthesize = .ok i) :
    cache.firstOutcome l = .ok ⟨l.caller, i⟩ := by
  rw [firstOutcome, hr, hi]
  rfl

/-- Whether nobody is about to make an outcome: each entry has one. -/
def Settled (cache : Cache) : Prop :=
  ∀ interface entry, cache.entry? interface = some entry → entry.outcome ≠ none

/-- What the first lookup of an interface leaves. -/
structure Entered (cache : Cache) (l : Lookup) (after : Cache) : Prop where
  entry : ∀ other, after.entry? other =
    if other = l.interface then some ⟨l.fingerprint, some (cache.firstOutcome l)⟩
    else cache.entry? other
  /-- Only a success claims a type name. -/
  names : after.typeNames =
    if (cache.firstOutcome l).isOk then (cache.claimName l.interface).typeNames
    else cache.typeNames
  counters : after.counters = cache.counters + .ofRun (cache.firstOutcome l)
  known : after.known = cache.known ++ [l.interface]

/-- The ways a lookup can go. -/
inductive LookUp (cache : Cache) (l : Lookup) : Outcome → Cache → Prop
  /-- The interface was first looked up with another contract. -/
  | conflict (entry : CacheEntry) (he : cache.entry? l.interface = some entry)
      (hf : entry.fingerprint ≠ l.fingerprint) :
      LookUp cache l (.error (Cache.conflict l.contract entry.fingerprint)) (cache.count .conflict)
  /-- The outcome is there. -/
  | hit (outcome : Outcome) (he : cache.entry? l.interface = some ⟨l.fingerprint, some outcome⟩) :
      LookUp cache l outcome (cache.count .hit)
  /-- Nobody has looked the interface up before. -/
  | first (after : Cache) (he : cache.entry? l.interface = none) (h : Entered cache l after) :
      LookUp cache l (cache.firstOutcome l) after

theorem outcome?_eq_some_iff {cache : Cache} {interface : String} {outcome : Outcome} :
    cache.outcome? interface = some outcome ↔
      ∃ entry, cache.entry? interface = some entry ∧ entry.outcome = some outcome := by
  unfold outcome?
  cases cache.entry? interface <;> simp

/-- The interface's name is free at both looks, so the first one decides. -/
theorem synthesizeAndClaim_eq (cache : Cache) (l : Lookup) :
    cache.synthesizeAndClaim l.caller l.contract =
      (cache.firstOutcome l,
        if (cache.firstOutcome l).isOk then cache.claimName l.interface else cache) := by
  unfold synthesizeAndClaim attempt firstOutcome Lookup.interface
  cases hr : cache.rival? l.contract.name with
  | some owner => rfl
  | none =>
    cases hs : l.contract.synthesize with
    | error e => rfl
    | ok implementation =>
      simp only [claim, hr]
      rfl

/-- **How a lookup goes.** On a cache whose entries all have outcomes, a lookup finds the contract to
have changed, or finds the outcome, or is the first and makes it. -/
theorem lookUp_spec {cache : Cache} (h : cache.Settled) (l : Lookup) :
    LookUp cache l (cache.lookUp l).1 (cache.lookUp l).2 := by
  unfold lookUp getOrSynthesize
  rw [pinned_eq]
  cases he : cache.entry? l.contract.name with
  | none =>
    -- The entry is made by this lookup, so it is compared with itself and has no outcome.
    have hpin : (cache.pin l.contract.name l.contract.fingerprint).typeNames = cache.typeNames :=
      typeNames_pin ..
    have hfirst : (cache.pin l.contract.name l.contract.fingerprint).firstOutcome l =
        cache.firstOutcome l := by
      unfold firstOutcome
      rw [rival?_congr _ hpin]
    have hnone : (cache.pin l.contract.name l.contract.fingerprint).outcome? l.contract.name = none := by
      simp [outcome?, he]
    simp only [Option.getD_none, ne_eq, not_true_eq_false, if_false, hnone, synthesizeAndClaim_eq,
      hfirst]
    refine LookUp.first _ he ⟨fun other => ?_, ?_, ?_, ?_⟩
    · by_cases ho : other = l.interface
      · subst ho
        cases (cache.firstOutcome l).isOk <;> simp [Lookup.interface, Lookup.fingerprint, he]
      · have ho' : other ≠ l.contract.name := ho
        cases (cache.firstOutcome l).isOk <;> simp [ho, ho']
    · cases (cache.firstOutcome l).isOk
      · simp
      · simpa using typeNames_claimName_congr _ hpin
    · rw [counters_countMiss, counters_publish]
      cases (cache.firstOutcome l).isOk <;> simp
    · cases (cache.firstOutcome l).isOk <;>
        simp [known_pin, he, Lookup.interface]
  | some entry =>
    have hpin : cache.pin l.contract.name l.contract.fingerprint = cache := by
      simp [pin, he]
    rw [hpin, Option.getD_some]
    by_cases hf : entry.fingerprint = l.contract.fingerprint
    · -- Nobody is about to make the outcome, so it is there.
      obtain ⟨outcome, ho⟩ := Option.ne_none_iff_exists'.mp (h _ _ he)
      have hout : cache.outcome? l.contract.name = some outcome :=
        outcome?_eq_some_iff.mpr ⟨entry, he, ho⟩
      simp only [hf, ne_eq, not_true_eq_false, if_false, hout]
      refine LookUp.hit outcome ?_
      rw [Lookup.interface, he, ← ho, Lookup.fingerprint, ← hf]
    · simp only [ne_eq, hf, not_false_eq_true, if_true]
      exact LookUp.conflict entry he hf

/-- The first lookup of an interface, by itself. -/
theorem lookUp_first {cache : Cache} (h : cache.Settled) {l : Lookup}
    (he : cache.entry? l.interface = none) :
    (cache.lookUp l).1 = cache.firstOutcome l ∧ Entered cache l (cache.lookUp l).2 := by
  have hl := lookUp_spec h l
  generalize (cache.lookUp l).1 = outcome, (cache.lookUp l).2 = after at hl ⊢
  cases hl with
  | conflict entry he' => exact absurd (he.symm.trans he') (by simp)
  | hit outcome he' => exact absurd (he.symm.trans he') (by simp)
  | first _ _ hin => exact ⟨rfl, hin⟩

/-- After a lookup there is an entry for its interface, and none is gone. -/
theorem entry?_lookUp_eq_none {cache : Cache} (h : cache.Settled) {l : Lookup} {interface : String} :
    entry? (cache.lookUp l).2 interface = none ↔
      interface ≠ l.interface ∧ cache.entry? interface = none := by
  have hl := lookUp_spec h l
  generalize (cache.lookUp l).1 = outcome, (cache.lookUp l).2 = after at hl ⊢
  cases hl with
  | conflict entry he =>
    rw [entry?_count]
    exact ⟨fun hn => ⟨fun e => absurd (he.symm.trans (e ▸ hn)) (by simp), hn⟩, And.right⟩
  | hit outcome he =>
    rw [entry?_count]
    exact ⟨fun hn => ⟨fun e => absurd (he.symm.trans (e ▸ hn)) (by simp), hn⟩, And.right⟩
  | first _ _ hin =>
    rw [hin.entry]
    by_cases hi : interface = l.interface <;> simp [hi]

theorem Settled.lookUp {cache : Cache} (h : cache.Settled) (l : Lookup) :
    (cache.lookUp l).2.Settled := by
  intro interface entry he
  have hl := lookUp_spec h l
  generalize (cache.lookUp l).1 = outcome, (cache.lookUp l).2 = after at hl he
  cases hl with
  | conflict => exact h _ _ he
  | hit => exact h _ _ he
  | first _ _ hin =>
    rw [hin.entry] at he
    split at he
    · cases he
      exact Option.some_ne_none _
    · exact h _ _ he

/-! ## Rows of lookups -/

def after (cache : Cache) : List Lookup → Cache
  | [] => cache
  | l :: ls => (cache.lookUp l).2.after ls

/-- Lookups one after another, with what they came to. -/
def log (cache : Cache) : List Lookup → History
  | [] => []
  | l :: ls => (l, (cache.lookUp l).1) :: (cache.lookUp l).2.log ls

theorem after_append (cache : Cache) (ls ms : List Lookup) :
    cache.after (ls ++ ms) = (cache.after ls).after ms := by
  induction ls generalizing cache with
  | nil => rfl
  | cons l ls ih => exact ih _

theorem log_append (cache : Cache) (ls ms : List Lookup) :
    cache.log (ls ++ ms) = cache.log ls ++ (cache.after ls).log ms := by
  induction ls generalizing cache with
  | nil => rfl
  | cons l ls ih => exact congrArg _ (ih _)

theorem map_fst_log (cache : Cache) (ls : List Lookup) : (cache.log ls).map (·.1) = ls := by
  induction ls generalizing cache with
  | nil => rfl
  | cons l ls ih => exact congrArg _ (ih _)

theorem Settled.after {cache : Cache} (h : cache.Settled) :
    ∀ ls : List Lookup, (cache.after ls).Settled
  | [] => h
  | l :: ls => Settled.after (h.lookUp l) ls

theorem settled_fresh : ({} : Cache).Settled :=
  fun _ _ h => absurd h (by simp [Cache.entry?])

/-- A contract with one method, which lists widgets. -/
def listing (identity : String) : Contract where
  name := identity
  methods := [{ name := "list", returns := some "Future<i64>", route := some ⟨"/widgets", .get⟩ }]

theorem synthesize_listing :
    (∃ i, (listing "shop::IWidgets").synthesize = .ok i) ∧
      (∃ i, (listing "depot::IGadgets").synthesize = .ok i) ∧
      ∃ i, (listing "depot::IWidgets").synthesize = .ok i :=
  ⟨isOk_iff.mp (by decide +kernel), isOk_iff.mp (by decide +kernel),
    isOk_iff.mp (by decide +kernel)⟩

end Cache

end ClientSynth

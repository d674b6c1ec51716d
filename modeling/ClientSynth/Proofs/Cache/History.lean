import ClientSynth.Proofs.Cache.Lookups
import Mathlib.Data.List.Dedup
import Mathlib.Order.Basic

/-!
# `ClientSynth.Proofs.Cache.History` — what lookups come to, told without a cache

The outcome of a lookup follows from the lookups before it and what they came to: `History.verdict` is
that rule, and it knows of no entries, no type names and no counters. A cache that was used by one
lookup after another holds what `Records` says of their history, and one more lookup comes to its
verdict and leaves a cache that holds what the longer history says.

> `theorem run (h : Records cache past) (ls : List Lookup) : cache.log ls = past.tell ls ∧ …`
-/

set_option autoImplicit false

namespace ClientSynth

namespace History

def first? (past : History) (interface : String) : Option (Lookup × Outcome) :=
  past.find? (·.1.interface = interface)

/-- The first success of another interface with the same type name. -/
def taker? (past : History) (interface : String) : Option (Lookup × Outcome) :=
  past.find? fun p =>
    TypeName.ofInterface p.1.interface = TypeName.ofInterface interface ∧
      p.1.interface ≠ interface ∧ p.2.isOk

/-- What a lookup comes to after others: the outcome of the first one of its interface, if that was
for the same contract. If it is the first one itself, it is an error where another interface has
succeeded with the same type name, and else what synthesis comes to. -/
def verdict (past : History) (l : Lookup) : Outcome :=
  match past.first? l.interface with
  | some (first, outcome) =>
    if first.fingerprint = l.fingerprint then outcome
    else .error (.conflictingContract l.interface first.fingerprint l.fingerprint)
  | none =>
    match past.taker? l.interface with
    | some (taker, _) =>
      .error (.duplicateTypeName (TypeName.ofInterface l.interface) taker.interface l.interface)
    | none => l.contract.synthesize.map (⟨l.caller, ·⟩)

/-- Lookups after a history, with what they come to. -/
def tell (past : History) : List Lookup → History
  | [] => []
  | l :: ls => (l, past.verdict l) :: tell (past ++ [(l, past.verdict l)]) ls

/-- Whether a lookup was for another contract than the first one of its interface. -/
def changed (past : History) (p : Lookup × Outcome) : Bool :=
  (past.first? p.1.interface).any (·.1.fingerprint ≠ p.1.fingerprint)

variable {past : History}

theorem first?_eq_some {interface : String} {p : Lookup × Outcome}
    (h : past.first? interface = some p) : p ∈ past ∧ p.1.interface = interface :=
  ⟨List.mem_of_find?_eq_some h, by simpa using List.find?_some h⟩

theorem first?_append_of_isSome {interface : String} (h : (past.first? interface).isSome = true)
    (later : History) : History.first? (past ++ later) interface = past.first? interface := by
  obtain ⟨p, hp⟩ := Option.isSome_iff_exists.mp h
  unfold first? at hp ⊢
  rw [List.find?_append, hp, Option.some_or]

theorem first?_append_of_none {l : Lookup} (h : past.first? l.interface = none) (o : Outcome)
    (interface : String) :
    History.first? (past ++ [(l, o)]) interface =
      if interface = l.interface then some (l, o) else past.first? interface := by
  unfold first? at h ⊢
  rw [List.find?_append]
  by_cases hi : interface = l.interface
  · subst hi
    rw [h, if_pos rfl]
    simp
  · have hl : ¬ l.interface = interface := fun e => hi e.symm
    simp [hi, hl]

/-- What some lookup is, with one more, that is some earlier one or the last. -/
theorem exists_mem_snoc {q : Lookup × Outcome} {P : Lookup × Outcome → Prop} :
    (∃ p ∈ past ++ [q], P p) ↔ (∃ p ∈ past, P p) ∨ P q := by
  simp [or_and_right, exists_or]

theorem isSome_first? {p : Lookup × Outcome} (h : p ∈ past) :
    (past.first? p.1.interface).isSome = true := by
  unfold first?
  rw [List.find?_isSome]
  exact ⟨p, h, by simp⟩

/-- The lookups of a history were for changed contracts or not, whatever comes later. -/
theorem countP_changed_append (p : Lookup × Outcome) :
    (past ++ [p]).countP (History.changed (past ++ [p])) =
      past.countP past.changed + if History.changed (past ++ [p]) p then 1 else 0 := by
  have hold : past.countP (History.changed (past ++ [p])) = past.countP past.changed := by
    refine List.countP_congr fun q hq => ?_
    unfold changed
    rw [first?_append_of_isSome (isSome_first? hq)]
  rw [List.countP_append, hold, List.countP_singleton]

end History

namespace Cache

def failed (cache : Cache) (interface : String) : Bool :=
  match cache.outcome? interface with
  | some (.error _) => true
  | _ => false

theorem failed_congr {cache other : Cache} {interface : String}
    (h : cache.entry? interface = other.entry? interface) :
    cache.failed interface = other.failed interface := by
  rw [failed, failed, outcome?, outcome?, h]

theorem owner?_congr {cache other : Cache} (h : cache.typeNames = other.typeNames)
    (typeName : String) : cache.owner? typeName = other.owner? typeName := by
  rw [owner?, owner?, h]

/-! ## The cache that a history leaves -/

/-- A cache holds what a history says. -/
structure Records (cache : Cache) (past : History) : Prop where
  entry : ∀ interface, cache.entry? interface =
    (past.first? interface).map fun p => ⟨p.1.fingerprint, some p.2⟩
  owner : ∀ typeName interface, cache.owner? typeName = some interface ↔
    ∃ p ∈ past, p.1.interface = interface ∧ TypeName.ofInterface interface = typeName ∧ p.2.isOk
  known : cache.known.Nodup
  total : cache.counters.total = past.length
  misses : cache.counters.misses = cache.known.length
  failures : cache.counters.failures = cache.known.countP cache.failed
  conflicts : cache.counters.conflicts = past.countP past.changed

namespace Records

variable {cache : Cache} {past : History}

theorem fresh : Records {} [] where
  entry _ := rfl
  owner typeName interface := by simp [owner?]
  known := List.nodup_nil
  total := rfl
  misses := rfl
  failures := rfl
  conflicts := rfl

theorem settled (h : Records cache past) : cache.Settled := by
  intro interface entry he
  rw [h.entry] at he
  obtain ⟨p, -, rfl⟩ := Option.map_eq_some_iff.mp he
  exact Option.some_ne_none _

/-- The owner of a type name has succeeded, and nobody else with that type name has. -/
theorem rival?_eq (h : Records cache past) (interface : String) :
    cache.rival? interface = (past.taker? interface).map (·.1.interface) := by
  cases hr : cache.rival? interface with
  | none =>
    rw [rival?_eq_none_iff] at hr
    cases ht : past.taker? interface with
    | none => rfl
    | some p =>
      obtain ⟨hname, hne, hok⟩ : _ ∧ _ ∧ _ := by simpa using List.find?_some ht
      exact absurd (hr _ ((h.owner _ _).mpr ⟨p, List.mem_of_find?_eq_some ht, rfl, hname, hok⟩)) hne
  | some owner =>
    obtain ⟨ho, hne⟩ := (cache.rival?_eq_some_iff interface).mp hr
    obtain ⟨p, hp, rfl, hname, hok⟩ := (h.owner _ _).mp ho
    cases ht : past.taker? interface with
    | none =>
      have hnot := List.find?_eq_none.mp ht p hp
      exact absurd (by simpa using ⟨hname, hne, hok⟩) hnot
    | some q =>
      obtain ⟨hname', -, hok'⟩ : _ ∧ _ ∧ _ := by simpa using List.find?_some ht
      have hq := (h.owner _ _).mpr ⟨q, List.mem_of_find?_eq_some ht, rfl, hname', hok'⟩
      rw [ho] at hq
      exact hq

theorem first?_eq_none (h : Records cache past) {interface : String}
    (he : cache.entry? interface = none) : past.first? interface = none := by
  rw [h.entry] at he
  exact Option.map_eq_none_iff.mp he

/-- The first lookup of an interface comes to its verdict. -/
theorem firstOutcome_eq (h : Records cache past) {l : Lookup}
    (he : cache.entry? l.interface = none) : cache.firstOutcome l = past.verdict l := by
  unfold firstOutcome History.verdict
  rw [h.first?_eq_none he, h.rival?_eq]
  cases past.taker? l.interface <;> rfl

/-- A lookup of an interface that has an entry only counts. -/
theorem counted (h : Records cache past) {l : Lookup} {o : Outcome} {change : Counters → Counters}
    (hsome : (past.first? l.interface).isSome = true)
    (ho : o.isOk = true → ∃ p ∈ past, p.1.interface = l.interface ∧ p.2.isOk = true)
    (htotal : (change cache.counters).total = cache.counters.total + 1)
    (hmisses : (change cache.counters).misses = cache.counters.misses)
    (hfailures : (change cache.counters).failures = cache.counters.failures)
    (hconflicts : (change cache.counters).conflicts =
      cache.counters.conflicts + if past.changed (l, o) then 1 else 0) :
    Records (cache.count change) (past ++ [(l, o)]) where
  entry interface := by
    rw [entry?_count, h.entry]
    by_cases hi : interface = l.interface
    · rw [hi, History.first?_append_of_isSome hsome]
    · have hl : ¬ l.interface = interface := fun e => hi e.symm
      simp [History.first?, List.find?_append, hl]
  owner typeName interface := by
    rw [owner?_count, h.owner, History.exists_mem_snoc]
    constructor
    · exact Or.inl
    · rintro (hold | ⟨hi, hn, hok⟩)
      · exact hold
      · -- The first lookup of the interface has succeeded too.
        obtain ⟨q, hq, hqi, hqok⟩ := ho hok
        exact ⟨q, hq, hqi.trans hi, hn, hqok⟩
  known := h.known
  total := by rw [counters_count, htotal, h.total, List.length_append]; rfl
  misses := by rw [counters_count, hmisses, h.misses]; rfl
  failures := by rw [counters_count, hfailures, h.failures]; rfl
  conflicts := by
    rw [counters_count, hconflicts, h.conflicts, History.countP_changed_append]
    unfold History.changed
    rw [History.first?_append_of_isSome hsome]

/-- Who owns what after the first lookup of an interface. -/
theorem owner_entered (h : Records cache past) {l : Lookup} {after : Cache}
    (hin : Entered cache l after) (typeName interface : String) :
    after.owner? typeName = some interface ↔
      ∃ p ∈ past ++ [(l, cache.firstOutcome l)], p.1.interface = interface ∧
        TypeName.ofInterface interface = typeName ∧ p.2.isOk := by
  cases hok : (cache.firstOutcome l).isOk with
  | false =>
    have hnames : after.typeNames = cache.typeNames := by rw [hin.names, hok]; rfl
    rw [owner?_congr hnames, h.owner, History.exists_mem_snoc]
    constructor
    · exact Or.inl
    · rintro (hold | ⟨-, -, hlast⟩)
      · exact hold
      · exact absurd (hok.symm.trans hlast) (by simp)
  | true =>
    have hnames : after.typeNames = (cache.claimName l.interface).typeNames := by
      rw [hin.names, hok]; rfl
    have hfree : cache.rival? l.interface = none := by
      cases hr : cache.rival? l.interface with
      | none => rfl
      | some owner => exact absurd hok (by simp [firstOutcome, hr, Except.isOk, Except.toBool])
    rw [owner?_congr hnames, History.exists_mem_snoc]
    by_cases hn : typeName = TypeName.ofInterface l.interface
    · subst hn
      rw [owner?_claimName_self _ _ hfree]
      constructor
      · intro e
        rcases Option.some.inj e with rfl
        exact Or.inr ⟨rfl, rfl, hok⟩
      · rintro (hold | ⟨rfl, -, -⟩)
        · -- Whoever had succeeded with this type name would be a rival.
          rw [(rival?_eq_none_iff _ _).mp hfree _ ((h.owner _ _).mpr hold)]
        · rfl
    · rw [owner?_claimName, if_neg hn, h.owner]
      constructor
      · exact Or.inl
      · rintro (hold | ⟨hi, hname, -⟩)
        · exact hold
        · exact absurd (hname.symm.trans (congrArg _ hi.symm)) hn

theorem entered (h : Records cache past) {l : Lookup} {after : Cache}
    (he : cache.entry? l.interface = none) (hin : Entered cache l after) :
    Records after (past ++ [(l, cache.firstOutcome l)]) := by
  have hnone := h.first?_eq_none he
  have hnew : l.interface ∉ cache.known := by
    rw [mem_known_iff, he]
    simp
  -- What was known before has failed or not as before, so only the new entry can add a failure.
  have hfailed : cache.known.countP after.failed = cache.known.countP cache.failed := by
    refine List.countP_congr fun other ho => ?_
    have hne : other ≠ l.interface := fun e => hnew (e ▸ ho)
    have hentry : after.entry? other = cache.entry? other := by rw [hin.entry, if_neg hne]
    rw [failed_congr hentry]
  refine ⟨fun interface => ?_, h.owner_entered hin, ?_, ?_, ?_, ?_, ?_⟩
  · rw [hin.entry, History.first?_append_of_none hnone, h.entry]
    split <;> rfl
  · rw [hin.known]
    exact nodup_snoc h.known hnew
  · have ht := h.total
    rw [hin.counters, List.length_append]
    cases cache.firstOutcome l <;> simp only [Counters.total] at ht ⊢ <;> simp [Counters.ofRun] <;>
      omega
  · rw [hin.counters, hin.known, List.length_append, Counters.misses_add, h.misses]
    cases cache.firstOutcome l <;> rfl
  · rw [hin.counters, hin.known, List.countP_append, hfailed, Counters.failures_add, h.failures,
      List.countP_singleton]
    have ho : after.outcome? l.interface = some (cache.firstOutcome l) := by
      simp [outcome?, hin.entry]
    unfold failed
    rw [ho]
    cases cache.firstOutcome l <;> rfl
  · rw [hin.counters, Counters.conflicts_add, h.conflicts, History.countP_changed_append]
    have hc : History.changed (past ++ [(l, cache.firstOutcome l)]) (l, cache.firstOutcome l) =
        false := by
      simp [History.changed, History.first?_append_of_none hnone]
    rw [hc]
    cases cache.firstOutcome l <;> rfl

/-- **One more lookup.** It comes to its verdict, and the cache records it. -/
theorem step (h : Records cache past) (l : Lookup) :
    (cache.lookUp l).1 = past.verdict l ∧
      Records (cache.lookUp l).2 (past ++ [(l, past.verdict l)]) := by
  have hl := lookUp_spec h.settled l
  generalize (cache.lookUp l).1 = outcome, (cache.lookUp l).2 = after at hl ⊢
  cases hl with
  | conflict entry he hf =>
    rw [h.entry] at he
    obtain ⟨⟨first, o⟩, hp, rfl⟩ := Option.map_eq_some_iff.mp he
    have hv : past.verdict l =
        .error (Cache.conflict l.contract first.fingerprint) := by
      simp only [History.verdict, hp]
      exact if_neg hf
    refine ⟨hv.symm, ?_⟩
    rw [hv]
    have hnot : (Except.error (Cache.conflict l.contract first.fingerprint) : Outcome).isOk = false :=
      rfl
    refine h.counted (by rw [hp]; rfl) (fun hok => absurd (hnot.symm.trans hok) (by simp)) ?_ rfl rfl ?_
    · simp only [Counters.total, Counters.conflict]
      omega
    · have hc : past.changed (l, .error (Cache.conflict l.contract first.fingerprint)) = true := by
        simpa [History.changed, hp] using hf
      rw [hc]
      rfl
  | hit outcome he =>
    rw [h.entry] at he
    obtain ⟨⟨first, o⟩, hp, heq⟩ := Option.map_eq_some_iff.mp he
    obtain ⟨hf, ho⟩ := CacheEntry.mk.inj heq
    rcases Option.some.inj ho with rfl
    have hv : past.verdict l = o := by
      simp only [History.verdict, hp]
      exact if_pos hf
    refine ⟨hv.symm, ?_⟩
    rw [hv]
    obtain ⟨hmem, hi⟩ := History.first?_eq_some hp
    refine h.counted (by rw [hp]; rfl) (fun hok => ⟨_, hmem, hi, hok⟩) ?_ rfl rfl ?_
    · simp only [Counters.total, Counters.hit]
      omega
    · have hc : past.changed (l, o) = false := by
        simpa [History.changed, hp] using hf
      rw [hc]
      rfl
  | first _ he hin =>
    refine ⟨h.firstOutcome_eq he, ?_⟩
    rw [← h.firstOutcome_eq he]
    exact h.entered he hin

/-- Many more lookups: the induction is on the lookups, with the history so far as it grows. -/
theorem run (h : Records cache past) (ls : List Lookup) :
    cache.log ls = past.tell ls ∧ Records (cache.after ls) (past ++ past.tell ls) := by
  induction ls generalizing cache past with
  | nil => exact ⟨rfl, by simpa [History.tell, Cache.after] using h⟩
  | cons l ls ih =>
    obtain ⟨hv, hnext⟩ := h.step l
    obtain ⟨hlog, hrec⟩ := ih hnext
    constructor
    · rw [Cache.log, History.tell, hv, hlog]
    · rw [Cache.after, History.tell]
      rw [List.append_assoc] at hrec
      exact hrec

end Records

end Cache

end ClientSynth

import ClientSynth.Cache.Basic
import ClientSynth.Proofs.Lists

/-!
# `ClientSynth.Proofs.Cache.Views` — a cache by what can be looked up in it

A cache keeps its entries and the owners of type names in lists, but nothing depends on more than what
looking them up gives: `entry?` for the entries, `owner?` for the type names, and the counters. Here
every operation is described by what it does to these three, so that no later file goes into a list.
-/

set_option autoImplicit false

namespace ClientSynth.Cache

/-- The interface that owns a type name. -/
def owner? (cache : Cache) (typeName : String) : Option String :=
  cache.typeNames.lookup typeName

variable (cache : Cache) (interface : String)

/-! ## Making an entry -/

@[simp]
theorem entry?_pin (fingerprint other : String) :
    entry? (cache.pin interface fingerprint) other =
      if other = interface then some ((cache.entry? interface).getD { fingerprint })
      else cache.entry? other := by
  unfold pin
  cases h : cache.entry? interface with
  | some entry =>
    by_cases ho : other = interface
    · simp [ho, h]
    · simp [ho]
  | none =>
    by_cases ho : other = interface
    · subst ho
      unfold entry? at h ⊢
      simp [List.lookup_append, h]
    · have hb : (other == interface) = false := by simpa using ho
      simp [Cache.entry?, List.lookup_append, List.lookup_cons, ho, hb]

theorem entry?_pin_of_some {fingerprint other : String} {entry : CacheEntry}
    (h : cache.entry? other = some entry) :
    entry? (cache.pin interface fingerprint) other = some entry := by
  rw [entry?_pin]
  split
  · rename_i ho
    rw [← ho, h, Option.getD_some]
  · exact h

/-- Nothing but an entry without an outcome is made, and that only where there was none. -/
theorem entry?_pin_eq_some {fingerprint other : String} {entry : CacheEntry}
    (h : entry? (cache.pin interface fingerprint) other = some entry) :
    cache.entry? other = some entry ∨ (other = interface ∧ entry = { fingerprint }) := by
  rw [entry?_pin] at h
  split at h
  · rename_i ho
    subst ho
    cases hold : cache.entry? other with
    | none =>
      rw [hold] at h
      exact Or.inr ⟨rfl, (Option.some.inj h).symm⟩
    | some old =>
      rw [hold] at h
      exact Or.inl h
  · exact Or.inl h

@[simp]
theorem owner?_pin (fingerprint typeName : String) :
    (cache.pin interface fingerprint).owner? typeName = cache.owner? typeName := by
  unfold pin
  split <;> rfl

@[simp]
theorem typeNames_pin (fingerprint : String) :
    (cache.pin interface fingerprint).typeNames = cache.typeNames := by
  unfold pin
  split <;> rfl

@[simp]
theorem counters_pin (fingerprint : String) :
    (cache.pin interface fingerprint).counters = cache.counters := by
  unfold pin
  split <;> rfl

/-- The fingerprint that a lookup is compared with is that of the entry. -/
theorem pinned_eq (fingerprint : String) :
    cache.pinned interface fingerprint =
      ((cache.entry? interface).getD { fingerprint }).fingerprint := by
  unfold pinned
  cases cache.entry? interface <;> rfl

/-! ## Publishing an outcome -/

theorem lookup_publishIn (outcome : Outcome) (other : String) :
    ∀ entries : List (String × CacheEntry),
      (publishIn interface outcome entries).lookup other =
        if other = interface then
          (entries.lookup interface).map ({ · with outcome := some outcome })
        else entries.lookup other
  | [] => by simp [publishIn]
  | (name, entry) :: rest => by
    have ih := lookup_publishIn outcome other rest
    unfold publishIn
    by_cases hn : name = interface
    · subst hn
      by_cases ho : other = name
      · simp [ho]
      · have hb : (other == name) = false := by simpa using ho
        simp [ho, List.lookup_cons, hb]
    · have hb : (interface == name) = false := by simpa using Ne.symm hn
      by_cases ho : other = name
      · subst ho
        simp [hn]
      · have hb' : (other == name) = false := by simpa using ho
        simp [hn, List.lookup_cons, hb, hb', ih]

@[simp]
theorem entry?_publish (outcome : Outcome) (other : String) :
    entry? (cache.publish interface outcome) other =
      if other = interface then
        (cache.entry? interface).map ({ · with outcome := some outcome })
      else cache.entry? other :=
  lookup_publishIn interface outcome other cache.entries

theorem entry?_publish_eq_some {outcome : Outcome} {other : String} {entry : CacheEntry}
    (h : entry? (cache.publish interface outcome) other = some entry) :
    cache.entry? other = some entry ∨
      (other = interface ∧
        ∃ old, cache.entry? interface = some old ∧ entry = { old with outcome := some outcome }) := by
  rw [entry?_publish] at h
  split at h
  · rename_i ho
    obtain ⟨old, hold, rfl⟩ := Option.map_eq_some_iff.mp h
    exact Or.inr ⟨ho, old, hold, rfl⟩
  · exact Or.inl h

@[simp]
theorem owner?_publish (outcome : Outcome) (typeName : String) :
    (cache.publish interface outcome).owner? typeName = cache.owner? typeName := rfl

@[simp]
theorem typeNames_publish (outcome : Outcome) :
    (cache.publish interface outcome).typeNames = cache.typeNames := rfl

@[simp]
theorem counters_publish (outcome : Outcome) :
    (cache.publish interface outcome).counters = cache.counters := rfl

/-! ## Claiming a type name -/

@[simp]
theorem entry?_claimName (other : String) :
    entry? (cache.claimName interface) other = cache.entry? other := by
  unfold claimName
  split <;> rfl

@[simp]
theorem counters_claimName : (cache.claimName interface).counters = cache.counters := by
  unfold claimName
  split <;> rfl

@[simp]
theorem owner?_claimName (typeName : String) :
    (cache.claimName interface).owner? typeName =
      if typeName = TypeName.ofInterface interface then
        some ((cache.owner? typeName).getD interface)
      else cache.owner? typeName := by
  unfold claimName owner?
  cases h : cache.typeNames.lookup (TypeName.ofInterface interface) with
  | some owner =>
    by_cases ht : typeName = TypeName.ofInterface interface
    · simp [ht, h]
    · simp [ht]
  | none =>
    by_cases ht : typeName = TypeName.ofInterface interface
    · simp [ht, List.lookup_append, h]
    · have hb : (typeName == TypeName.ofInterface interface) = false := by simpa using ht
      simp [ht, List.lookup_append, hb]

/-- What is claimed depends on who owns what, and on nothing else. -/
theorem typeNames_claimName_congr {cache other : Cache} (h : cache.typeNames = other.typeNames) :
    (cache.claimName interface).typeNames = (other.claimName interface).typeNames := by
  unfold claimName
  rw [h]
  split <;> simp [h]

theorem rival?_congr {cache other : Cache} (h : cache.typeNames = other.typeNames) :
    cache.rival? interface = other.rival? interface := by
  rw [rival?, rival?, h]

/-- A rival is an owner of the type name other than the interface itself. -/
theorem rival?_eq_some_iff {owner : String} :
    cache.rival? interface = some owner ↔
      cache.owner? (TypeName.ofInterface interface) = some owner ∧ owner ≠ interface := by
  simp [rival?, owner?, Option.filter_eq_some_iff]

theorem rival?_eq_none_iff :
    cache.rival? interface = none ↔
      ∀ owner, cache.owner? (TypeName.ofInterface interface) = some owner → owner = interface := by
  simp [rival?, owner?, Option.filter_eq_none_iff]

/-- An interface without a rival owns its type name once it has claimed it. -/
theorem owner?_claimName_self (h : cache.rival? interface = none) :
    (cache.claimName interface).owner? (TypeName.ofInterface interface) = some interface := by
  rw [owner?_claimName, if_pos rfl]
  cases ho : cache.owner? (TypeName.ofInterface interface) with
  | none => rfl
  | some owner => rw [(cache.rival?_eq_none_iff interface).mp h owner ho]; rfl

/-! ## Counting -/

@[simp]
theorem entry?_count (change : Counters → Counters) (other : String) :
    entry? (cache.count change) other = cache.entry? other := rfl

@[simp]
theorem owner?_count (change : Counters → Counters) (typeName : String) :
    (cache.count change).owner? typeName = cache.owner? typeName := rfl

@[simp]
theorem typeNames_count (change : Counters → Counters) :
    (cache.count change).typeNames = cache.typeNames := rfl

@[simp]
theorem counters_count (change : Counters → Counters) :
    (cache.count change).counters = change cache.counters := rfl

/-! ## Attempts -/

/-- What is attempted depends on who owns what, and on nothing else. -/
theorem attempt_congr {cache other : Cache} (h : cache.typeNames = other.typeNames) (c : Contract) :
    cache.attempt c = other.attempt c := by
  rw [attempt, attempt, rival?_congr _ h]

theorem attempt_eq_ok {c : Contract} {i : Implementation} (h : cache.attempt c = .ok i) :
    cache.rival? c.name = none ∧ c.synthesize = .ok i := by
  unfold attempt at h
  split at h
  · cases h
  · rename_i hr
    exact ⟨hr, h⟩

/-! ## Which interfaces have entries -/

/-- The interfaces with an entry, in the order of their first lookups. -/
def known : List String :=
  cache.entries.map (·.1)

theorem mem_known_iff : interface ∈ cache.known ↔ (cache.entry? interface).isSome = true := by
  simp only [known, entry?, List.lookup_isSome_iff, List.mem_map, beq_iff_eq]
  constructor
  · rintro ⟨e, he, rfl⟩
    exact ⟨e, he, rfl⟩
  · rintro ⟨e, he, rfl⟩
    exact ⟨e, he, rfl⟩

/-- An entry is made for an interface that has none. -/
theorem known_pin (fingerprint : String) :
    (cache.pin interface fingerprint).known =
      if (cache.entry? interface).isSome then cache.known else cache.known ++ [interface] := by
  unfold pin
  cases cache.entry? interface <;> simp [known]

@[simp]
theorem known_publish (outcome : Outcome) :
    (cache.publish interface outcome).known = cache.known := by
  have hkeys : ∀ entries : List (String × CacheEntry),
      (publishIn interface outcome entries).map (·.1) = entries.map (·.1) := by
    intro entries
    induction entries with
    | nil => rfl
    | cons e rest ih =>
      unfold publishIn
      split
      · rfl
      · rw [List.map_cons, List.map_cons, ih]
  exact hkeys cache.entries

@[simp]
theorem known_claimName : (cache.claimName interface).known = cache.known := by
  unfold claimName
  split <;> rfl

@[simp]
theorem known_count (change : Counters → Counters) : (cache.count change).known = cache.known := rfl

end ClientSynth.Cache

import ClientSynth.Proofs.Cache.Lookups

/-!
# `ClientSynth.Proofs.Cache.Commits` — first lookups, and then all others

A row of lookups in two parts: at first one lookup for each interface, and then lookups of interfaces
that have been looked up. All outcomes are made in the first part, and in the second part the cache
does nothing but count.
-/

set_option autoImplicit false

namespace ClientSynth.Cache

variable {cache : Cache} {l : Lookup}

/-- A first lookup comes to what the attempt comes to, with its caller as the maker. -/
theorem firstOutcome_eq_map (cache : Cache) (l : Lookup) :
    cache.firstOutcome l = (cache.attempt l.contract).map (⟨l.caller, ·⟩) := by
  unfold firstOutcome attempt Lookup.interface
  cases cache.rival? l.contract.name <;> rfl

/-- What a lookup of an interface that has an outcome is counted as. -/
def charge (cache : Cache) (l : Lookup) : Counters :=
  if (cache.entry? l.interface).map (·.fingerprint) = some l.fingerprint then .ofHit else .ofConflict

/-! ## One lookup for each interface -/

/-- What is so after lookups of which each was the first of its interface. -/
structure Firsts (order : List Lookup) : Prop where
  nodup : order.Nodup
  looked : ∀ interface, entry? (({} : Cache).after order) interface ≠ none →
    ∃ l ∈ order, l.interface = interface
  entry : ∀ p ∈ ({} : Cache).log order,
    entry? (({} : Cache).after order) p.1.interface = some ⟨p.1.fingerprint, some p.2⟩
  counters : (({} : Cache).after order).counters =
    ((({} : Cache).log order).map fun p => Counters.ofRun p.2).sum

namespace Firsts

variable {order : List Lookup}

theorem nil : Firsts [] where
  nodup := List.nodup_nil
  looked _ h := absurd rfl h
  entry _ h := absurd h (by simp [log])
  counters := rfl

theorem entry?_of_mem (h : Firsts order) (hl : l ∈ order) :
    ∃ o, entry? (({} : Cache).after order) l.interface = some ⟨l.fingerprint, some o⟩ := by
  rw [← map_fst_log {} order] at hl
  obtain ⟨p, hp, rfl⟩ := List.mem_map.mp hl
  exact ⟨p.2, h.entry p hp⟩

/-- One more first lookup. -/
theorem append (h : Firsts order) (he : entry? (({} : Cache).after order) l.interface = none) :
    Entered (({} : Cache).after order) l (({} : Cache).after (order ++ [l])) ∧
      Firsts (order ++ [l]) := by
  obtain ⟨hout, hin⟩ := lookUp_first (settled_fresh.after order) he
  have hafter : ({} : Cache).after (order ++ [l]) = ((({} : Cache).after order).lookUp l).2 :=
    after_append ..
  have hlog : ({} : Cache).log (order ++ [l]) =
      ({} : Cache).log order ++ [(l, (({} : Cache).after order).firstOutcome l)] := by
    rw [log_append, log, hout]
    rfl
  rw [← hafter] at hin
  refine ⟨hin, ?_, fun interface hne => ?_, fun p hp => ?_, ?_⟩
  · refine nodup_snoc h.nodup fun hl => ?_
    obtain ⟨o, ho⟩ := h.entry?_of_mem hl
    exact absurd (he.symm.trans ho) (by simp)
  · by_cases hi : interface = l.interface
    · exact ⟨l, by simp, hi.symm⟩
    · rw [hin.entry, if_neg hi] at hne
      obtain ⟨m, hm, hmi⟩ := h.looked interface hne
      exact ⟨m, List.mem_append_left _ hm, hmi⟩
  · rw [hlog] at hp
    rcases List.mem_append.mp hp with hp | hp
    · -- The earlier lookups were of interfaces that have entries, so of none that is new.
      have hold := h.entry p hp
      have hne : p.1.interface ≠ l.interface := fun e => absurd (he.symm.trans (e ▸ hold)) (by simp)
      rw [hin.entry, if_neg hne, hold]
    · rcases List.mem_singleton.mp hp with rfl
      rw [hin.entry, if_pos rfl]
  · rw [hin.counters, hlog, List.map_append, List.sum_append, h.counters]
    simp

end Firsts

/-! ## Lookups of interfaces that have been looked up -/

/-- A lookup of an interface with an entry takes its answer and is counted. -/
theorem lookUp_again (h : cache.Settled) (he : cache.entry? l.interface ≠ none) :
    ∃ change, (cache.lookUp l).2 = cache.count change ∧
      change cache.counters = cache.counters + cache.charge l ∧
      ∃ entry, cache.entry? l.interface = some entry ∧
        entry.Answers l.contract (cache.lookUp l).1 := by
  have hl := lookUp_spec h l
  generalize (cache.lookUp l).1 = outcome, (cache.lookUp l).2 = after at hl ⊢
  cases hl with
  | conflict entry he' hf =>
    refine ⟨_, rfl, ?_, entry, he', CacheEntry.answers_conflict hf⟩
    rw [charge, he', if_neg (by simpa using hf)]
    rfl
  | hit outcome he' =>
    refine ⟨_, rfl, ?_, _, he', CacheEntry.answers_outcome ..⟩
    rw [charge, he', if_pos (by rfl)]
    rfl
  | first _ hnone => exact absurd hnone he

/-- What a row of lookups leaves that only counts, and what they come to. -/
structure Counted (cache : Cache) (ls : List Lookup) : Prop where
  answers : ∀ p ∈ cache.log ls,
    ∃ entry, cache.entry? p.1.interface = some entry ∧ entry.Answers p.1.contract p.2
  entry : ∀ interface, entry? (cache.after ls) interface = cache.entry? interface
  names : (cache.after ls).typeNames = cache.typeNames
  counters : (cache.after ls).counters = cache.counters + (ls.map cache.charge).sum

theorem counted (h : cache.Settled) {ls : List Lookup}
    (hls : ∀ l ∈ ls, cache.entry? l.interface ≠ none) : Counted cache ls := by
  induction ls generalizing cache with
  | nil => exact ⟨fun _ hp => absurd hp (by simp [log]), fun _ => rfl, rfl, (add_zero _).symm⟩
  | cons l ls ih =>
    obtain ⟨change, hchange, hcounters, hanswer⟩ := lookUp_again h (hls l List.mem_cons_self)
    have hset := h.lookUp l
    rw [hchange] at hset
    have hrest := ih hset fun m hm => hls m (List.mem_cons_of_mem _ hm)
    have hafter : cache.after (l :: ls) = (cache.count change).after ls := by rw [after, hchange]
    have hlog : cache.log (l :: ls) = (l, (cache.lookUp l).1) :: (cache.count change).log ls := by
      rw [log, hchange]
    refine ⟨fun p hp => ?_, fun interface => ?_, ?_, ?_⟩
    · rw [hlog] at hp
      rcases List.mem_cons.mp hp with rfl | hp
      · exact hanswer
      · exact hrest.answers p hp
    · rw [hafter, hrest.entry]
      rfl
    · rw [hafter, hrest.names]
      rfl
    · rw [hafter, hrest.counters, List.map_cons, List.sum_cons, counters_count, hcounters, add_assoc]
      rfl

end ClientSynth.Cache

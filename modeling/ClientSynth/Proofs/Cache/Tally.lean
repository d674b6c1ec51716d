import ClientSynth.Proofs.Cache.Commits
import ClientSynth.Proofs.Cache.Reachable

/-!
# `ClientSynth.Proofs.Cache.Tally` — workers that make one lookup each

When each worker makes one lookup, a turn gets exactly one lookup on, and `Advance` says which and how.
What a lookup has been counted as can be told from how far it is (`bill`), and the counters are at every
instant the sum of these.

> `theorem Tallied.step (h : Tallied contracts s) (ha : Advance contracts s l s') : Tallied contracts s'`
-/

set_option autoImplicit false

namespace ClientSynth

namespace Lookup

theorem mem_numberedFrom {l : Lookup} : ∀ {n : Nat} {cs : List Contract},
    l ∈ numberedFrom n cs ↔ n ≤ l.caller ∧ cs[l.caller - n]? = some l.contract
  | n, [] => by simp [numberedFrom]
  | n, c :: cs => by
    rw [numberedFrom, List.mem_cons, mem_numberedFrom]
    constructor
    · rintro (rfl | ⟨hn, hc⟩)
      · simp
      · refine ⟨by omega, ?_⟩
        rwa [show l.caller - n = l.caller - (n + 1) + 1 by omega, List.getElem?_cons_succ]
    · rintro ⟨hn, hc⟩
      rcases Nat.eq_or_lt_of_le hn with rfl | hlt
      · left
        rw [Nat.sub_self, List.getElem?_cons_zero] at hc
        rw [Option.some.inj hc]
      · right
        refine ⟨hlt, ?_⟩
        rwa [show l.caller - n = l.caller - (n + 1) + 1 by omega, List.getElem?_cons_succ] at hc

/-- The numbered lookups are those of the contracts by the workers at their positions. -/
theorem mem_numbered {l : Lookup} {cs : List Contract} :
    l ∈ numbered cs ↔ cs[l.caller]? = some l.contract := by
  rw [numbered, mem_numberedFrom, Nat.sub_zero]
  simp

theorem map_caller_numberedFrom : ∀ (n : Nat) (cs : List Contract),
    (numberedFrom n cs).map (·.caller) = List.range' n cs.length
  | _, [] => rfl
  | n, _ :: cs => congrArg (n :: ·) (map_caller_numberedFrom (n + 1) cs)

theorem nodup_numbered (cs : List Contract) : (numbered cs).Nodup := by
  refine List.Nodup.of_map (·.caller) ?_
  rw [numbered, map_caller_numberedFrom]
  exact List.nodup_range'

/-- Callers are told apart by their numbers. -/
theorem eq_of_caller_eq {cs : List Contract} {l m : Lookup} (hl : l ∈ numbered cs)
    (hm : m ∈ numbered cs) (h : m.caller = l.caller) : m = l := by
  rw [mem_numbered] at hl hm
  rw [h, hl] at hm
  cases l
  cases m
  simp_all

end Lookup

namespace SharedCache

variable {contracts : List Contract} {s s' : SharedCache} {l m : Lookup} {order : List Lookup}
  {i : Nat} {phase : Phase}

/-! ## One lookup for each worker -/

/-- Each worker has one lookup, that of the contract at its position. -/
structure Single (contracts : List Contract) (s : SharedCache) : Prop where
  contracts : s.workers.map (·.contract) = contracts
  later : ∀ w ∈ s.workers, w.later = []

/-- How far a lookup is. -/
def phaseOf (s : SharedCache) (l : Lookup) : Phase :=
  match s.workers[l.caller]? with
  | some w => w.phase
  | none => .start

theorem single_start (contracts : List Contract) :
    Single contracts (start (contracts.map fun c => (c, []))) where
  contracts := by simp [start, Function.comp_def]
  later w hw := by
    obtain ⟨c, -, rfl⟩ : ∃ c ∈ contracts, ({ contract := c } : Worker) = w := by
      simpa [start] using hw
    rfl

theorem Single.worker (h : Single contracts s) (hl : l ∈ Lookup.numbered contracts) :
    ∃ w, s.workers[l.caller]? = some w ∧ w.contract = l.contract ∧ s.phaseOf l = w.phase := by
  rw [Lookup.mem_numbered, ← h.contracts, List.getElem?_map] at hl
  obtain ⟨w, hw, hc⟩ := Option.map_eq_some_iff.mp hl
  exact ⟨w, hw, hc, by rw [phaseOf, hw]⟩

/-- A turn gets one lookup on, and no other. -/
structure Advance (contracts : List Contract) (s : SharedCache) (l : Lookup) (s' : SharedCache) :
    Prop where
  mem : l ∈ Lookup.numbered contracts
  moves : Moves s.cache s.claims l.caller l.contract (s.phaseOf l) (s'.phaseOf l) s'.cache s'.claims
  standing : ∀ m ∈ Lookup.numbered contracts,
    Standing s.cache s.claims m.caller m.contract (s.phaseOf m)
  others : ∀ m ∈ Lookup.numbered contracts, m ≠ l →
    m.caller ≠ l.caller ∧ s'.phaseOf m = s.phaseOf m

theorem Advance.keeps (h : Advance contracts s l s') :
    Keeps s.cache s.claims l.caller s'.cache s'.claims :=
  h.moves.keeps (h.standing l h.mem)

theorem Single.standing (h : Single contracts s) (hs : Sound s) (hl : l ∈ Lookup.numbered contracts) :
    Standing s.cache s.claims l.caller l.contract (s.phaseOf l) := by
  obtain ⟨w, hw, hc, hp⟩ := h.worker hl
  rw [hp, ← hc]
  exact hs.standing _ w hw

theorem Single.turn (h : Single contracts s) (hs : Sound s) (ht : s.turn? i = some s') :
    Single contracts s' ∧ ∃ l, Advance contracts s l s' := by
  obtain ⟨w, hw, hturn⟩ := turn?_spec ht
  have hmem : w ∈ s.workers := List.mem_of_getElem? hw
  cases hturn with
  | next outcome c later _ hl => exact absurd (hl.symm.trans (h.later w hmem)) (by simp)
  | move phase cache claims hm =>
    have hl : (⟨i, w.contract⟩ : Lookup) ∈ Lookup.numbered contracts := by
      rw [Lookup.mem_numbered, ← h.contracts, List.getElem?_map, hw]
      rfl
    have hi : i < s.workers.length := (List.getElem?_eq_some_iff.mp hw).1
    refine ⟨⟨?_, fun v hv => ?_⟩, ⟨i, w.contract⟩, hl, ?_, fun m => h.standing hs, fun m hmn hne => ?_⟩
    · -- The worker goes back to its place with the contract that it had.
      have hsame : (s.workers.map (·.contract)).set i w.contract = s.workers.map (·.contract) := by
        refine List.ext_getElem? fun j => ?_
        by_cases hj : i = j
        · subst hj
          rw [List.getElem?_set_self (by simpa using hi), List.getElem?_map, hw]
          rfl
        · rw [List.getElem?_set_ne hj]
      rw [List.map_set, hsame, h.contracts]
    · rcases List.mem_or_eq_of_mem_set hv with hv | rfl
      · exact h.later v hv
      · exact h.later w hmem
    · have hbefore : s.phaseOf ⟨i, w.contract⟩ = w.phase := by rw [phaseOf, hw]
      have hafter : (⟨cache, claims, s.workers.set i { w with phase }⟩ : SharedCache).phaseOf
          ⟨i, w.contract⟩ = phase := by
        rw [phaseOf, List.getElem?_set_self hi]
      rw [hbefore, hafter]
      exact hm
    · have hcaller : m.caller ≠ i := fun e => hne (Lookup.eq_of_caller_eq hl hmn e)
      refine ⟨hcaller, ?_⟩
      rw [phaseOf, phaseOf, List.getElem?_set_ne hcaller.symm]

/-! ## Counting -/

/-- What a lookup has been counted as, by how far it is. -/
def bill (cache : Cache) (claims : List (String × Nat)) (l : Lookup) : Phase → Counters
  | .failed _ => { misses := 1 }
  | .returned outcome =>
    if claims.lookup l.interface = some l.caller then .ofRun outcome else cache.charge l
  | _ => 0

theorem bill_of_claimed {cache : Cache} {claims : List (String × Nat)}
    (h : claims.lookup l.interface = some l.caller) (outcome : Outcome) :
    bill cache claims l (.returned outcome) = .ofRun outcome := by
  rw [bill, if_pos h]

theorem bill_of_unclaimed {cache : Cache} {claims : List (String × Nat)}
    (h : claims.lookup l.interface ≠ some l.caller) (outcome : Outcome) :
    bill cache claims l (.returned outcome) = cache.charge l := by
  rw [bill, if_neg h]

/-- Who has the claim to make the outcome, by how far a lookup is. -/
def Accounted (claims : List (String × Nat)) (l : Lookup) : Phase → Prop
  | .start | .absent | .entered _ | .conflicting _ | .found _ =>
    claims.lookup l.interface ≠ some l.caller
  | .begun | .synthesized _ | .made _ | .missed _ => claims.lookup l.interface = some l.caller
  | .failed outcome => claims.lookup l.interface = some l.caller ∧ outcome.isOk = false
  | .returned _ => True

/-- The counters are the sum of what all lookups have been counted as. -/
structure Tallied (contracts : List Contract) (s : SharedCache) : Prop where
  accounted : ∀ l ∈ Lookup.numbered contracts, Accounted s.claims l (s.phaseOf l)
  counters : s.cache.counters =
    ((Lookup.numbered contracts).map fun l => bill s.cache s.claims l (s.phaseOf l)).sum

theorem phaseOf_start (hl : l ∈ Lookup.numbered contracts) :
    (start (contracts.map fun c => (c, []))).phaseOf l = .start := by
  rw [Lookup.mem_numbered] at hl
  simp [phaseOf, start, hl]

theorem tallied_start (contracts : List Contract) :
    Tallied contracts (start (contracts.map fun c => (c, []))) where
  accounted l hl := by
    rw [phaseOf_start hl]
    exact fun h => absurd h (by simp [start])
  counters := by
    have hzero : ∀ c ∈ (Lookup.numbered contracts).map fun l =>
        bill (start (contracts.map fun c => (c, []))).cache [] l
          ((start (contracts.map fun c => (c, []))).phaseOf l), c = 0 := by
      intro c hc
      obtain ⟨l, hl, rfl⟩ := List.mem_map.mp hc
      rw [phaseOf_start hl]
      rfl
    exact (List.sum_eq_zero hzero).symm

/-- A sum in which one summand grows. -/
theorem sum_map_eq_add {α : Type} [DecidableEq α] {f g : α → Counters} {x : α} {d : Counters}
    (hx : g x = f x + d) : ∀ {xs : List α}, xs.Nodup → x ∈ xs → (∀ y ∈ xs, y ≠ x → g y = f y) →
      (xs.map g).sum = (xs.map f).sum + d
  | [], _, hmem, _ => absurd hmem (by simp)
  | y :: ys, hnodup, hmem, hother => by
    obtain ⟨hy, hys⟩ := List.nodup_cons.mp hnodup
    rw [List.map_cons, List.sum_cons, List.map_cons, List.sum_cons]
    by_cases hxy : y = x
    · subst hxy
      have hrest : ys.map g = ys.map f := List.map_congr_left fun z hz =>
        hother z (List.mem_cons_of_mem _ hz) fun e => hy (e ▸ hz)
      rw [hx, hrest, add_right_comm]
    · have hmem' : x ∈ ys := (List.mem_cons.mp hmem).resolve_left (Ne.symm hxy)
      rw [hother y List.mem_cons_self hxy,
        sum_map_eq_add hx hys hmem' fun z hz => hother z (List.mem_cons_of_mem _ hz), add_assoc]

theorem Accounted.keep (ha : Accounted s.claims m phase) (hne : m.caller ≠ l.caller)
    (hk : Keeps s.cache s.claims l.caller s'.cache s'.claims) : Accounted s'.claims m phase := by
  have hclaimed := hk.claimed m.interface m.caller
  have hunclaimed := hk.unclaimed m.interface m.caller hne
  cases phase with
  | start | absent | entered | conflicting | found => exact fun h => ha (hunclaimed h)
  | begun | synthesized | made | missed => exact hclaimed ha
  | failed => exact ⟨hclaimed ha.1, ha.2⟩
  | returned => trivial

theorem Moves.accounted {cache cache' : Cache} {claims claims' : List (String × Nat)}
    {phase' : Phase} (hm : Moves cache claims l.caller l.contract phase phase' cache' claims')
    (ha : Accounted claims l phase) : Accounted claims' l phase' := by
  cases hm with
  | begin ho hc =>
    have hnone : claims.lookup l.interface = none := hc
    rw [Accounted, List.lookup_append, hnone, Option.none_or]
    simp [Lookup.interface]
  | look | miss | pin | differ | find | giveUp | synthesize | lose | win | publish => exact ha
  | countFailedMiss => exact ⟨ha, rfl⟩
  | refuse | countMiss | countFailure | countHit => trivial

theorem bill_keep (hs : Standing s.cache s.claims m.caller m.contract phase)
    (hne : m.caller ≠ l.caller) (hk : Keeps s.cache s.claims l.caller s'.cache s'.claims) :
    bill s'.cache s'.claims m phase = bill s.cache s.claims m phase := by
  cases phase with
  | returned outcome =>
    obtain ⟨entry, he, -⟩ := hs
    obtain ⟨entry', he', hf, -⟩ := hk.grows.entry _ _ he
    have hclaim : s'.claims.lookup m.interface = some m.caller ↔
        s.claims.lookup m.interface = some m.caller :=
      ⟨hk.unclaimed _ _ hne, hk.claimed _ _⟩
    have hcharge : s'.cache.charge m = s.cache.charge m := by
      rw [Cache.charge, Cache.charge, Lookup.interface, he, he', Option.map_some, Option.map_some, hf]
    simp only [bill, hclaim, hcharge]
  | _ => rfl

/-- What a move adds to the counters, it adds to the bill of its lookup. -/
theorem Moves.bill {cache cache' : Cache} {claims claims' : List (String × Nat)} {phase' : Phase}
    (hm : Moves cache claims l.caller l.contract phase phase' cache' claims')
    (hs : Standing cache claims l.caller l.contract phase) (ha : Accounted claims l phase) :
    ∃ d, cache'.counters = cache.counters + d ∧
      SharedCache.bill cache' claims' l phase' = SharedCache.bill cache claims l phase + d := by
  cases hm with
  | look | miss | differ | find | begin | giveUp | synthesize | lose =>
    exact ⟨0, (add_zero _).symm, rfl⟩
  | pin => exact ⟨0, (Cache.counters_pin ..).trans (add_zero _).symm, rfl⟩
  | win => exact ⟨0, (Cache.counters_claimName ..).trans (add_zero _).symm, rfl⟩
  | publish => exact ⟨0, (add_zero _).symm, rfl⟩
  | refuse pinned =>
    obtain ⟨hp, entry, he, rfl⟩ := hs
    refine ⟨.ofConflict, rfl, ?_⟩
    have hcharge : (cache.count .conflict).charge l = .ofConflict := by
      rw [Cache.charge, Cache.entry?_count, Lookup.interface, he]
      exact if_neg fun e => hp (Option.some.inj e)
    rw [bill_of_unclaimed ha, hcharge]
    exact (zero_add _).symm
  | countMiss shared =>
    refine ⟨{ misses := 1 }, rfl, ?_⟩
    rw [bill_of_claimed ha]
    rfl
  | countFailedMiss => exact ⟨{ misses := 1 }, rfl, rfl⟩
  | countFailure outcome =>
    obtain ⟨hclaim, hfail⟩ := ha
    refine ⟨{ failures := 1 }, rfl, ?_⟩
    rw [bill_of_claimed hclaim]
    cases outcome with
    | ok shared => exact absurd hfail (by simp [Except.isOk, Except.toBool])
    | error e => rfl
  | countHit outcome =>
    have he : cache.entry? l.contract.name = some ⟨l.contract.fingerprint, some outcome⟩ := hs
    refine ⟨.ofHit, rfl, ?_⟩
    have hcharge : (cache.count .hit).charge l = .ofHit := by
      rw [Cache.charge, Cache.entry?_count, Lookup.interface, he]
      exact if_pos rfl
    rw [bill_of_unclaimed ha, hcharge]
    exact (zero_add _).symm

theorem Tallied.step (h : Tallied contracts s) (ha : Advance contracts s l s') :
    Tallied contracts s' := by
  have hk := ha.keeps
  have haccount := h.accounted l ha.mem
  obtain ⟨d, hcounters, hbill⟩ := ha.moves.bill (ha.standing l ha.mem) haccount
  refine ⟨fun m hm => ?_, ?_⟩
  · by_cases hml : m = l
    · subst hml
      exact ha.moves.accounted haccount
    · obtain ⟨hne, hphase⟩ := ha.others m hm hml
      rw [hphase]
      exact (h.accounted m hm).keep hne hk
  · rw [hcounters, h.counters]
    refine (sum_map_eq_add hbill (Lookup.nodup_numbered _) ha.mem fun m hm hml => ?_).symm
    obtain ⟨hne, hphase⟩ := ha.others m hm hml
    rw [hphase]
    exact bill_keep (ha.standing m hm) hne hk

end SharedCache

end ClientSynth

import ClientSynth.Cache.Concurrent
import ClientSynth.Proofs.Cache.Views

/-!
# `ClientSynth.Proofs.Cache.Moves` — what a turn can do

`Moves` lists the sections of a lookup, each with what has to be so for it and what it does to the
cache and to the claims; `Turn` adds the step of a worker to its next lookup. Everything about runs of
many workers goes by cases on these two.

> `theorem turn?_spec (h : s.turn? i = some s') : ∃ w, s.workers[i]? = some w ∧ Turn s i w s'`
-/

set_option autoImplicit false

namespace ClientSynth.SharedCache

/-- The sections of the lookup of a contract by worker `i`: from phase to phase, with the cache and the
claims that they leave. -/
inductive Moves (cache : Cache) (claims : List (String × Nat)) (i : Nat) (c : Contract) :
    Phase → Phase → Cache → List (String × Nat) → Prop
  | look (entry : CacheEntry) (he : cache.entry? c.name = some entry) :
      Moves cache claims i c .start (.entered entry.fingerprint) cache claims
  | miss (he : cache.entry? c.name = none) : Moves cache claims i c .start .absent cache claims
  /-- Makes the entry, unless somebody else has in the meantime. -/
  | pin : Moves cache claims i c .absent (.entered (cache.pinned c.name c.fingerprint))
      (cache.pin c.name c.fingerprint) claims
  /-- The entry is for another contract. -/
  | differ (pinned : String) (hp : pinned ≠ c.fingerprint) :
      Moves cache claims i c (.entered pinned) (.conflicting pinned) cache claims
  | find (outcome : Outcome) (ho : cache.outcome? c.name = some outcome) :
      Moves cache claims i c (.entered c.fingerprint) (.found outcome) cache claims
  /-- Nobody has begun to make the outcome, so this worker does. -/
  | begin (ho : cache.outcome? c.name = none) (hc : claims.lookup c.name = none) :
      Moves cache claims i c (.entered c.fingerprint) .begun cache (claims ++ [(c.name, i)])
  | refuse (pinned : String) :
      Moves cache claims i c (.conflicting pinned)
        (.returned (.error (Cache.conflict c pinned))) (cache.count .conflict) claims
  /-- The type name is taken, or synthesis fails. -/
  | giveUp (e : SynthesisError) (h : cache.attempt c = .error e) :
      Moves cache claims i c .begun (.made (.error e)) cache claims
  | synthesize (implementation : Implementation) (h : cache.attempt c = .ok implementation) :
      Moves cache claims i c .begun (.synthesized implementation) cache claims
  /-- The type name was taken since it was looked at. -/
  | lose (implementation : Implementation) (owner : String)
      (hr : cache.rival? c.name = some owner) :
      Moves cache claims i c (.synthesized implementation)
        (.made (.error (Cache.nameTaken c.name owner))) cache claims
  | win (implementation : Implementation) (hr : cache.rival? c.name = none) :
      Moves cache claims i c (.synthesized implementation) (.made (.ok ⟨i, implementation⟩))
        (cache.claimName c.name) claims
  | publish (outcome : Outcome) :
      Moves cache claims i c (.made outcome) (.missed outcome) (cache.publish c.name outcome) claims
  | countMiss (shared : SharedImplementation) :
      Moves cache claims i c (.missed (.ok shared)) (.returned (.ok shared)) (cache.count .miss) claims
  | countFailedMiss (e : SynthesisError) :
      Moves cache claims i c (.missed (.error e)) (.failed (.error e)) (cache.count .miss) claims
  | countFailure (outcome : Outcome) :
      Moves cache claims i c (.failed outcome) (.returned outcome) (cache.count .failure) claims
  | countHit (outcome : Outcome) :
      Moves cache claims i c (.found outcome) (.returned outcome) (cache.count .hit) claims

variable {cache cache' : Cache} {claims claims' : List (String × Nat)} {i : Nat} {c : Contract}
  {phase phase' : Phase}

/-- The sections are the moves. -/
theorem moves_iff : section? cache claims i c phase = some (phase', cache', claims') ↔
    Moves cache claims i c phase phase' cache' claims' := by
  constructor
  · -- One bullet for each phase, in the order in which sections are defined.
    intro h
    unfold section? at h
    split at h
    · split at h
      · rename_i entry he
        cases h
        exact .look entry he
      · rename_i he
        cases h
        exact .miss he
    · cases h
      exact .pin
    · rename_i pinned
      split at h
      · rename_i hp
        cases h
        exact .differ pinned hp
      · rename_i hp
        rcases Decidable.not_not.mp hp with rfl
        split at h
        · rename_i outcome ho
          cases h
          exact .find outcome ho
        · rename_i ho
          split at h
          · cases h
          · rename_i hc
            cases h
            exact .begin ho hc
    · cases h
      exact .refuse _
    · split at h
      · rename_i e he
        cases h
        exact .giveUp e he
      · rename_i implementation hi
        cases h
        exact .synthesize implementation hi
    · rename_i implementation
      unfold Cache.claim at h
      cases hr : cache.rival? c.name with
      | some owner =>
        rw [hr] at h
        cases h
        exact .lose implementation owner hr
      | none =>
        rw [hr] at h
        cases h
        exact .win implementation hr
    · cases h
      exact .publish _
    · cases h
      exact .countMiss _
    · cases h
      exact .countFailedMiss _
    · cases h
      exact .countFailure _
    · cases h
      exact .countHit _
    · cases h
  · intro h
    cases h with
    | look entry he => simp [section?, he]
    | miss he => simp [section?, he]
    | differ pinned hp => simp [section?, hp]
    | find outcome ho => simp [section?, ho]
    | begin ho hc => simp [section?, ho, hc]
    | giveUp e he => simp [section?, he]
    | synthesize implementation hi => simp [section?, hi]
    | lose implementation owner hr => simp [section?, Cache.claim, hr]
    | win implementation hr => simp [section?, Cache.claim, hr]
    | pin | refuse | publish | countMiss | countFailedMiss | countFailure | countHit => rfl

/-- What a turn of worker `i` leaves. -/
inductive Turn (s : SharedCache) (i : Nat) (w : Worker) : SharedCache → Prop
  /-- A section of the lookup that the worker is at. -/
  | move (phase : Phase) (cache : Cache) (claims : List (String × Nat))
      (h : Moves s.cache s.claims i w.contract w.phase phase cache claims) :
      Turn s i w ⟨cache, claims, s.workers.set i { w with phase }⟩
  /-- The step to the worker's next lookup. -/
  | next (outcome : Outcome) (c : Contract) (later : List Contract)
      (hp : w.phase = .returned outcome) (hl : w.later = c :: later) :
      Turn s i w { s with
        workers := s.workers.set i { contract := c, later, outcomes := w.outcomes ++ [outcome] } }

theorem turn?_spec {s s' : SharedCache} (h : s.turn? i = some s') :
    ∃ w, s.workers[i]? = some w ∧ Turn s i w s' := by
  unfold turn? at h
  cases hw : s.workers[i]? with
  | none => simp [hw] at h
  | some w =>
    refine ⟨w, rfl, ?_⟩
    rw [hw] at h
    simp only [bind, Option.bind, pure] at h
    cases hs : section? s.cache s.claims i w.contract w.phase with
    | some r =>
      obtain ⟨phase, cache, claims⟩ := r
      simp only [hs, Option.some.injEq] at h
      rw [← h]
      exact .move phase cache claims (moves_iff.mp hs)
    | none =>
      -- No section is left, so this can only be the step to the next lookup.
      simp only [hs] at h
      unfold Worker.next? at h
      split at h
      · cases h
      · rename_i w' hn
        split at hn
        · rename_i outcome c later hp hl
          cases hn
          cases h
          exact .next outcome c later hp hl
        · cases hn

/-! ## Runs -/

/-- Workers before their first turns on a fresh cache: each has a first lookup and those after it. -/
def start (threads : List (Contract × List Contract)) : SharedCache :=
  ⟨{}, [], threads.map fun t => { contract := t.1, later := t.2 }⟩

theorem run?_cons {s s' : SharedCache} {is : List Nat} :
    s.run? (i :: is) = some s' ↔ ∃ t, s.turn? i = some t ∧ t.run? is = some s' := by
  simp [run?, Option.bind_eq_some_iff]

theorem run?_append {s s' : SharedCache} {is js : List Nat} :
    s.run? (is ++ js) = some s' ↔ ∃ t, s.run? is = some t ∧ t.run? js = some s' := by
  induction is generalizing s with
  | nil => simp [run?]
  | cons i is ih =>
    rw [List.cons_append, run?_cons]
    constructor
    · rintro ⟨t, ht, h⟩
      obtain ⟨u, hu, hs⟩ := ih.mp h
      exact ⟨u, run?_cons.mpr ⟨t, ht, hu⟩, hs⟩
    · rintro ⟨u, hu, hs⟩
      obtain ⟨t, ht, hr⟩ := run?_cons.mp hu
      exact ⟨t, ht, ih.mpr ⟨u, hr, hs⟩⟩

end ClientSynth.SharedCache

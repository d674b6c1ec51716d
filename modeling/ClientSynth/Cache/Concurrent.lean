import ClientSynth.Cache.Basic

/-!
# `ClientSynth.Cache.Concurrent` — lookups that run at the same time

Workers look contracts up in one cache at the same time. A lookup is a row of sections, each of which
runs without interruption, and between two of them other workers may run theirs. The one place where
a worker has to wait is an entry whose outcome another worker has begun to make: `claims` says who has
begun for which interface, and nobody begins a second time.
-/

set_option autoImplicit false

namespace ClientSynth

/-- How far a lookup is, named for what it does next. -/
inductive Phase where
  /-- It looks for the entry of the interface. -/
  | start
  /-- It makes the entry, having found none. -/
  | absent
  /-- It compares the contract with that of the entry and takes its outcome, or begins to make it. -/
  | entered (pinned : String)
  /-- It counts a conflict. -/
  | conflicting (pinned : String)
  /-- It looks at the type name, and synthesizes if that is free. -/
  | begun
  /-- It claims the type name. -/
  | synthesized (implementation : Implementation)
  /-- It publishes the outcome. -/
  | made (outcome : Outcome)
  /-- It counts a miss. -/
  | missed (outcome : Outcome)
  /-- It counts a failure. -/
  | failed (outcome : Outcome)
  /-- It counts a hit. -/
  | found (outcome : Outcome)
  | returned (outcome : Outcome)
  deriving DecidableEq

/-- A worker: the lookup it is at, those that it does later, and the outcomes of those that are over. -/
structure Worker where
  contract : Contract
  phase : Phase := .start
  later : List Contract := []
  outcomes : List Outcome := []
  deriving DecidableEq

namespace Worker

/-- The worker at its next lookup, if the one it is at is over and another is left. -/
def next? (w : Worker) : Option Worker :=
  match w.phase, w.later with
  | .returned outcome, c :: later =>
    some { contract := c, later, outcomes := w.outcomes ++ [outcome] }
  | _, _ => none

def IsOver (w : Worker) : Prop :=
  w.later = [] ∧ ∃ outcome, w.phase = .returned outcome

end Worker

/-- A cache with the workers that use it. -/
structure SharedCache where
  cache : Cache
  /-- Which worker made the outcome of an interface, or is about to. -/
  claims : List (String × Nat) := []
  workers : List Worker
  deriving DecidableEq

namespace SharedCache

/-- The phase after a section of the lookup that worker `i` is at, with what it does to the cache and
to the claims; nothing if the lookup has to wait or is over. -/
def section? (cache : Cache) (claims : List (String × Nat)) (i : Nat) (c : Contract) :
    Phase → Option (Phase × Cache × List (String × Nat))
  | .start =>
    match cache.entry? c.name with
    | some entry => some (.entered entry.fingerprint, cache, claims)
    | none => some (.absent, cache, claims)
  | .absent =>
    -- Another worker may have made the entry since, and then that one stays.
    some (.entered (cache.pinned c.name c.fingerprint), cache.pin c.name c.fingerprint, claims)
  | .entered pinned =>
    if pinned ≠ c.fingerprint then some (.conflicting pinned, cache, claims)
    else
      match cache.outcome? c.name with
      | some outcome => some (.found outcome, cache, claims)
      | none =>
        match claims.lookup c.name with
        -- Another worker is making the outcome, and this one has to wait for it.
        | some _ => none
        | none => some (.begun, cache, claims ++ [(c.name, i)])
  | .conflicting pinned =>
    some (.returned (.error (Cache.conflict c pinned)), cache.count .conflict, claims)
  | .begun =>
    match cache.attempt c with
    | .error e => some (.made (.error e), cache, claims)
    | .ok implementation => some (.synthesized implementation, cache, claims)
  | .synthesized implementation =>
    let (outcome, cache) := cache.claim i c.name implementation
    some (.made outcome, cache, claims)
  | .made outcome => some (.missed outcome, cache.publish c.name outcome, claims)
  -- Counters are counted one at a time, so a run that failed takes two sections.
  | .missed (.ok shared) => some (.returned (.ok shared), cache.count .miss, claims)
  | .missed (.error e) => some (.failed (.error e), cache.count .miss, claims)
  | .failed outcome => some (.returned outcome, cache.count .failure, claims)
  | .found outcome => some (.returned outcome, cache.count .hit, claims)
  | .returned _ => none

/-- The cache after worker `i` had a turn: a section of its lookup, or the step to its next one.
Nothing if it has to wait or has nothing left to do. -/
def turn? (s : SharedCache) (i : Nat) : Option SharedCache := do
  let w ← s.workers[i]?
  match section? s.cache s.claims i w.contract w.phase with
  | some (phase, cache, claims) =>
    return ⟨cache, claims, s.workers.set i { w with phase }⟩
  | none => return { s with workers := s.workers.set i (← w.next?) }

/-- The cache after turns in the given order; nothing if one of them cannot be had. -/
def run? (s : SharedCache) : List Nat → Option SharedCache
  | [] => some s
  | i :: is => do (← s.turn? i).run? is

def IsOver (s : SharedCache) : Prop :=
  ∀ w ∈ s.workers, w.IsOver

/-! ## Running in rounds -/

/-- The cache after each of the workers from `i` on that can have a turn had one. -/
def turns (s : SharedCache) (i : Nat) : Nat → SharedCache
  | 0 => s
  | n + 1 => ((s.turn? i).getD s).turns (i + 1) n

/-- The cache after some rounds of turns for all workers. -/
def rounds (s : SharedCache) : Nat → SharedCache
  | 0 => s
  | n + 1 => (s.turns 0 s.workers.length).rounds n

/-- The longest way that a lookup can go has eight sections. -/
def longestLookup : Nat := 8

/-- The outcomes of the lookups that workers are at, of those that are over. -/
def outcomes (s : SharedCache) : List Outcome :=
  s.workers.filterMap fun w =>
    match w.phase with
    | .returned outcome => some outcome
    | _ => none

end SharedCache

namespace Cache

/-- Looks up contracts at the same time, in rounds. In each round somebody gets on, so there are enough
rounds for all. -/
def getOrSynthesizeTogether (cache : Cache) (contracts : List Contract) : List Outcome × Cache :=
  let s : SharedCache := ⟨cache, [], contracts.map fun c => { contract := c }⟩
  let s := s.rounds (SharedCache.longestLookup * contracts.length)
  (s.outcomes, s.cache)

end Cache

end ClientSynth

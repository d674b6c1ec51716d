import ClientSynth.Proofs.Cache.Waiting

/-!
# `ClientSynth.Proofs.Cache.Ending` — lookups come to an end

That somebody can always have a turn does not yet say that all lookups end. Every turn takes one from
what is left (`Turn.left_lt`), so both together do:

> whatever turns workers have had, no run is longer than what was left at the start, and some more
> turns end all lookups (`exists_run_isOver`).

Nobody has to choose these turns: rounds in which everybody has a turn who can are enough, and
`getOrSynthesizeTogether` has as many of them as lookups can need (`length_getOrSynthesizeTogether`).
-/

set_option autoImplicit false

namespace ClientSynth

/-- How many sections a lookup has left at most. -/
def Phase.left : Phase → Nat
  | .start => SharedCache.longestLookup
  | .absent => 7
  | .entered _ => 6
  | .begun => 5
  | .synthesized _ => 4
  | .made _ => 3
  | .missed _ => 2
  | .failed _ | .conflicting _ | .found _ => 1
  | .returned _ => 0

namespace SharedCache

variable {s s' t : SharedCache} {cache cache' : Cache} {claims claims' : List (String × Nat)}
  {i : Nat} {w : Worker} {c : Contract} {phase phase' : Phase}

/-- How many turns a worker can still have at most: those of its lookup, and for each later one the step
to it and its sections. -/
def turnsLeft (w : Worker) : Nat :=
  w.phase.left + (longestLookup + 1) * w.later.length

def left (s : SharedCache) : Nat :=
  total turnsLeft s.workers

/-! ## Every turn takes one -/

theorem Moves.left_lt (h : Moves cache claims i c phase phase' cache' claims') :
    phase'.left < phase.left := by
  cases h <;> simp [Phase.left, longestLookup]

theorem Turn.left_lt (hw : s.workers[i]? = some w) (ht : Turn s i w s') : s'.left < s.left := by
  cases ht with
  | move phase cache claims h => exact total_set_lt (Nat.add_lt_add_right h.left_lt _) hw
  | next outcome c later hp hl =>
    refine total_set_lt ?_ hw
    simp only [turnsLeft, hp, hl, Phase.left, longestLookup, List.length_cons]
    omega

theorem left_lt_of_turn? (h : s.turn? i = some t) : t.left < s.left := by
  obtain ⟨w, hw, hturn⟩ := turn?_spec h
  exact hturn.left_lt hw

/-- A run takes what is left, a turn at a time. -/
theorem length_add_left_le {is : List Nat} (h : s.run? is = some s') :
    is.length + s'.left ≤ s.left := by
  induction is generalizing s with
  | nil =>
    cases h
    exact Nat.le_of_eq (Nat.zero_add _)
  | cons i is ih =>
    obtain ⟨t, ht, hr⟩ := run?_cons.mp h
    have hlt := left_lt_of_turn? ht
    have hle := ih hr
    rw [List.length_cons]
    omega

/-! ## What is kept up to the end -/

/-- What makes somebody get on. -/
structure Live (s : SharedCache) : Prop where
  sound : Sound s
  attended : Attended s

theorem Live.run (h : Live s) {is : List Nat} (hr : s.run? is = some s') : Live s' :=
  ⟨(h.sound.run hr).1, h.attended.run h.sound hr⟩

/-- Lookups that begin on a cache of which nobody makes an outcome. -/
theorem live_unclaimed (hc : Owned cache) (workers : List Worker)
    (hstart : ∀ w ∈ workers, w.phase = .start) : Live ⟨cache, [], workers⟩ where
  sound := by
    refine ⟨fun i w hw => ?_, hc, List.nodup_nil⟩
    rw [hstart w (List.mem_of_getElem? hw)]
    trivial
  attended := fun _ _ hl => absurd hl (by simp)

theorem Live.progress (h : Live s) (hover : ¬ s.IsOver) : ∃ i t, s.turn? i = some t :=
  h.attended.progress h.sound hover

/-- **Lookups come to an end**: whatever turns there were, some more end all of them. -/
theorem Live.exists_run_isOver (h : Live s) : ∃ is s', s.run? is = some s' ∧ s'.IsOver := by
  induction hn : s.left using Nat.strongRecOn generalizing s with
  | ind n ih =>
    by_cases hover : s.IsOver
    · exact ⟨[], s, rfl, hover⟩
    · obtain ⟨i, t, ht⟩ := h.progress hover
      have hlive : Live t := h.run (run?_cons.mpr ⟨t, ht, rfl⟩ : s.run? [i] = some t)
      obtain ⟨is, s', hr, hover'⟩ := ih t.left (hn ▸ left_lt_of_turn? ht) hlive rfl
      exact ⟨i :: is, s', run?_cons.mpr ⟨t, ht, hr⟩, hover'⟩

/-! ## Rounds -/

theorem length_workers_run {is : List Nat} (h : s.run? is = some s') :
    s'.workers.length = s.workers.length := by
  induction is generalizing s with
  | nil =>
    cases h
    rfl
  | cons i is ih =>
    obtain ⟨t, ht, hr⟩ := run?_cons.mp h
    obtain ⟨w, -, hturn⟩ := turn?_spec ht
    rw [ih hr]
    cases hturn <;> exact List.length_set

/-- The turns of a round are a run. -/
theorem exists_run_turns (s : SharedCache) (i n : Nat) : ∃ is, s.run? is = some (s.turns i n) := by
  induction n generalizing s i with
  | zero => exact ⟨[], rfl⟩
  | succ n ih =>
    cases ht : s.turn? i with
    | none =>
      obtain ⟨is, hr⟩ := ih s (i + 1)
      exact ⟨is, by rw [turns, ht]; exact hr⟩
    | some t =>
      obtain ⟨is, hr⟩ := ih t (i + 1)
      exact ⟨i :: is, by rw [turns, ht]; exact run?_cons.mpr ⟨t, ht, hr⟩⟩

theorem exists_run_rounds (s : SharedCache) (n : Nat) : ∃ is, s.run? is = some (s.rounds n) := by
  induction n generalizing s with
  | zero => exact ⟨[], rfl⟩
  | succ n ih =>
    obtain ⟨is, hr⟩ := exists_run_turns s 0 s.workers.length
    obtain ⟨js, hr'⟩ := ih (s.turns 0 s.workers.length)
    exact ⟨is ++ js, run?_append.mpr ⟨_, hr, hr'⟩⟩

theorem left_run_le {is : List Nat} (h : s.run? is = some s') : s'.left ≤ s.left :=
  Nat.le_trans (Nat.le_add_left _ _) (length_add_left_le h)

/-- A round in which somebody can have a turn takes something. If nobody had one before, then that
worker has. -/
theorem left_turns_lt {j n : Nat} (ht : s.turn? j = some t) :
    ∀ {i : Nat}, i ≤ j → j < i + n → (s.turns i n).left < s.left := by
  induction n with
  | zero => exact fun hi hj => absurd hj (by omega)
  | succ n ih =>
    intro i hi hj
    cases hturn : s.turn? i with
    | some t' =>
      obtain ⟨is, hr⟩ := exists_run_turns t' (i + 1) n
      rw [turns, hturn, Option.getD_some]
      exact Nat.lt_of_le_of_lt (left_run_le hr) (left_lt_of_turn? hturn)
    | none =>
      have hne : i ≠ j := by
        intro hij
        rw [hij, ht] at hturn
        cases hturn
      rw [turns, hturn, Option.getD_none]
      exact ih (by omega) (by omega)

/-- What is over stays over. -/
theorem isOver_run (h : s.IsOver) {is : List Nat} (hr : s.run? is = some s') : s' = s := by
  cases is with
  | nil => exact (Option.some.inj hr).symm
  | cons i is =>
    obtain ⟨t, ht, -⟩ := run?_cons.mp hr
    obtain ⟨w, hw, -⟩ := turn?_spec ht
    have hnone := (turn?_eq_none_iff hw).mpr (Or.inl (h w (List.mem_of_getElem? hw)))
    rw [ht] at hnone
    cases hnone

/-- **Rounds end all lookups**, if there are as many as what is left. -/
theorem Live.isOver_rounds {n : Nat} (h : Live s) (hn : s.left ≤ n) : (s.rounds n).IsOver := by
  induction n generalizing s with
  | zero =>
    by_contra hover
    obtain ⟨i, t, ht⟩ := h.progress hover
    have hlt := left_lt_of_turn? ht
    omega
  | succ n ih =>
    by_cases hover : s.IsOver
    · obtain ⟨is, hr⟩ := exists_run_rounds s (n + 1)
      rwa [isOver_run hover hr]
    · obtain ⟨j, t, ht⟩ := h.progress hover
      obtain ⟨w, hw, -⟩ := turn?_spec ht
      have hj : j < s.workers.length := (List.getElem?_eq_some_iff.mp hw).1
      have hlt := left_turns_lt ht (Nat.zero_le j) (by simpa using hj)
      obtain ⟨is, hr⟩ := exists_run_turns s 0 s.workers.length
      exact ih (h.run hr) (by omega)

theorem length_outcomes (h : s.IsOver) : s.outcomes.length = s.workers.length := by
  refine List.filterMap_length_eq_length.mpr fun w hw => ?_
  obtain ⟨-, outcome, hp⟩ := h w hw
  rw [hp]
  rfl

end SharedCache

namespace Cache

open SharedCache

theorem left_together (cache : Cache) (contracts : List Contract) :
    (SharedCache.mk cache [] (contracts.map fun c => { contract := c })).left =
      longestLookup * contracts.length := by
  induction contracts with
  | nil => rfl
  | cons c contracts ih =>
    have hcons : (SharedCache.mk cache [] ((c :: contracts).map fun c => { contract := c })).left =
        longestLookup + (SharedCache.mk cache [] (contracts.map fun c => { contract := c })).left := rfl
    rw [hcons, ih, List.length_cons, Nat.mul_succ, Nat.add_comm]

/-- **Looking up together ends with an outcome for each contract.** -/
theorem length_getOrSynthesizeTogether {cache : Cache} (hc : Owned cache) (contracts : List Contract) :
    (cache.getOrSynthesizeTogether contracts).1.length = contracts.length := by
  have hlive : Live ⟨cache, [], contracts.map fun c => { contract := c }⟩ :=
    live_unclaimed hc _ (by simp)
  have hover := hlive.isOver_rounds (Nat.le_of_eq (left_together cache contracts))
  obtain ⟨is, hr⟩ := exists_run_rounds ⟨cache, [], contracts.map fun c => { contract := c }⟩
    (longestLookup * contracts.length)
  exact (length_outcomes hover).trans ((length_workers_run hr).trans (List.length_map _))

end Cache

end ClientSynth

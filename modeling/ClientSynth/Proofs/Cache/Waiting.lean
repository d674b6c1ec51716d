import ClientSynth.Proofs.Cache.Reachable

/-!
# `ClientSynth.Proofs.Cache.Waiting` — who waits for whom

A worker waits at one place only, at an outcome that somebody has begun to make and not published yet
(`turn?_eq_none_iff`). Whoever makes an outcome needs nobody for it: it can have a turn in each of the
three phases between the claim and the publication (`Makes.turn`). So all that has to be carried
through a run is that a claim without an outcome has somebody who makes it:

> `Attended s`: every outcome that is claimed, and not there, is being made by the worker with the claim.

This is the other half of `Standing`, which says of a worker that makes an outcome that it has the claim.
Together they say who gets on when somebody waits (`Attended.progress`).
-/

set_option autoImplicit false

namespace ClientSynth

/-- Whether a lookup is between beginning to make an outcome and publishing it. -/
def Phase.IsMaking : Phase → Prop
  | .begun | .synthesized _ | .made _ => True
  | _ => False

namespace SharedCache

variable {s s' : SharedCache} {cache cache' : Cache} {claims claims' : List (String × Nat)}
  {i j : Nat} {w : Worker} {c : Contract} {phase phase' : Phase} {interface : String}

/-- Worker `j` makes the outcome for an interface. -/
def Makes (s : SharedCache) (j : Nat) (interface : String) : Prop :=
  ∃ w, s.workers[j]? = some w ∧ w.contract.name = interface ∧ w.phase.IsMaking

/-- A worker is at an outcome that is claimed and not there yet. -/
structure Waits (s : SharedCache) (w : Worker) : Prop where
  phase : w.phase = .entered w.contract.fingerprint
  missing : s.cache.outcome? w.contract.name = none
  claimed : ∃ j, s.claims.lookup w.contract.name = some j

/-! ## Turns that can be had -/

theorem section?_eq_none_iff : section? cache claims i c phase = none ↔
    (phase = .entered c.fingerprint ∧ cache.outcome? c.name = none ∧
      ∃ j, claims.lookup c.name = some j) ∨ ∃ outcome, phase = .returned outcome := by
  cases phase with
  | start => cases he : cache.entry? c.name <;> simp [section?, he]
  | entered pinned =>
    by_cases hp : pinned = c.fingerprint
    · cases ho : cache.outcome? c.name <;> cases hc : claims.lookup c.name <;>
        simp [section?, hp, ho, hc]
    · simp [section?, hp]
  | begun => cases ha : cache.attempt c <;> simp [section?, ha]
  | missed outcome => cases outcome <;> simp [section?]
  | returned outcome => simp [section?]
  | absent | conflicting | synthesized | made | failed | found => simp [section?]

/-- The only worker that is not through and cannot have a turn is one that waits. -/
theorem turn?_eq_none_iff (hw : s.workers[i]? = some w) :
    s.turn? i = none ↔ w.IsOver ∨ s.Waits w := by
  have hturn : s.turn? i = none ↔ section? s.cache s.claims i w.contract w.phase = none ∧
      w.next? = none := by
    unfold turn?
    rw [hw]
    cases hs : section? s.cache s.claims i w.contract w.phase <;> cases hn : w.next? <;>
      simp [hs, hn]
  rw [hturn, section?_eq_none_iff]
  constructor
  · rintro ⟨⟨hp, ho, hc⟩ | ⟨outcome, hp⟩, hn⟩
    · exact Or.inr ⟨hp, ho, hc⟩
    · refine Or.inl ⟨?_, outcome, hp⟩
      unfold Worker.next? at hn
      cases hl : w.later with
      | nil => rfl
      | cons c later => simp [hp, hl] at hn
  · rintro (⟨hl, outcome, hp⟩ | h)
    · exact ⟨Or.inr ⟨outcome, hp⟩, by simp [Worker.next?, hp, hl]⟩
    · exact ⟨Or.inl ⟨h.phase, h.missing, h.claimed⟩, by simp [Worker.next?, h.phase]⟩

/-- Who makes an outcome does not wait for anybody. -/
theorem Makes.turn (h : s.Makes j interface) : ∃ t, s.turn? j = some t := by
  obtain ⟨w, hw, -, hm⟩ := h
  refine Option.ne_none_iff_exists'.mp fun hnone => ?_
  rcases (turn?_eq_none_iff hw).mp hnone with ⟨-, outcome, hp⟩ | hwaits
  · rw [hp] at hm
    exact hm
  · rw [hwaits.phase] at hm
    exact hm

/-- Who makes an outcome has the claim, so nobody else makes it. -/
theorem Makes.claimed (h : s.Makes j interface) (hs : Sound s) :
    s.claims.lookup interface = some j := by
  obtain ⟨w, hw, rfl, hm⟩ := h
  have hstanding := hs.standing j w hw
  cases hp : w.phase with
  | begun | synthesized =>
    rw [hp] at hstanding
    exact hstanding.claimed
  | made =>
    rw [hp] at hstanding
    exact hstanding.1.claimed
  | _ =>
    rw [hp] at hm
    exact hm.elim

/-! ## Claims have somebody -/

/-- Every outcome that is claimed and not there is being made by the worker with the claim. -/
def Attended (s : SharedCache) : Prop :=
  ∀ interface j, s.claims.lookup interface = some j → s.cache.outcome? interface = none →
    s.Makes j interface

/-- A new claim is that of a worker that has just begun. -/
theorem Moves.claim (h : Moves cache claims i c phase phase' cache' claims')
    (hl : claims'.lookup interface = some j) :
    claims.lookup interface = some j ∨ (interface = c.name ∧ j = i ∧ phase' = .begun) := by
  cases h with
  | begin ho hc =>
    rw [List.lookup_append, Option.or_eq_some_iff] at hl
    rcases hl with hl | ⟨-, hl⟩
    · exact Or.inl hl
    · by_cases hname : interface = c.name
      · obtain rfl : i = j := by simpa [hname] using hl
        exact Or.inr ⟨hname, rfl, rfl⟩
      · have hb : (interface == c.name) = false := by simpa using hname
        simp [List.lookup_cons, hb] at hl
  | _ => exact Or.inl hl

/-- Who makes an outcome goes on making it until it is there. -/
theorem Moves.making (h : Moves cache claims i c phase phase' cache' claims')
    (hs : Standing cache claims i c phase) (hm : phase.IsMaking) :
    phase'.IsMaking ∨ ∃ outcome, cache'.outcome? c.name = some outcome := by
  cases h with
  | giveUp | synthesize | lose | win => exact Or.inl trivial
  | publish outcome =>
    obtain ⟨hmaking, -⟩ := hs
    refine Or.inr ⟨outcome, Cache.outcome?_eq_some_iff.mpr ⟨⟨c.fingerprint, some outcome⟩, ?_, rfl⟩⟩
    rw [Cache.entry?_publish, if_pos rfl, hmaking.entry]
    rfl
  | _ => exact hm.elim

theorem attended_start (threads : List (Contract × List Contract)) : Attended (start threads) :=
  fun _ _ hl => absurd hl (by simp [start])

theorem Attended.turn (h : Attended s) (hs : Sound s) (hw : s.workers[i]? = some w)
    (ht : Turn s i w s') : Attended s' := by
  intro interface j hl ho
  cases ht with
  | next outcome c later hp =>
    obtain ⟨v, hv, hname, hm⟩ := h interface j hl ho
    -- A worker at its next lookup was through with the last one, so it was not making anything.
    have hne : j ≠ i := by
      rintro rfl
      obtain rfl : w = v := Option.some.inj (hw.symm.trans hv)
      rw [hp] at hm
      exact hm
    exact ⟨v, by rw [getElem?_set_of_getElem? hw, if_neg hne, hv], hname, hm⟩
  | move phase cache claims hmove =>
    have hstanding := hs.standing i w hw
    rcases hmove.claim hl with hold | ⟨rfl, rfl, hbegun⟩
    · have hbefore := (hmove.keeps hstanding).grows.outcome?_eq_none ho
      obtain ⟨v, hv, hname, hm⟩ := h interface j hold hbefore
      by_cases hne : j = i
      · subst hne
        obtain rfl : w = v := Option.some.inj (hw.symm.trans hv)
        refine ⟨{ w with phase }, by rw [getElem?_set_of_getElem? hw, if_pos rfl], hname, ?_⟩
        rcases hmove.making hstanding hm with hmaking | ⟨outcome, hthere⟩
        · exact hmaking
        · rw [hname] at hthere
          exact absurd (ho.symm.trans hthere) (by simp)
      · exact ⟨v, by rw [getElem?_set_of_getElem? hw, if_neg hne, hv], hname, hm⟩
    · exact ⟨{ w with phase }, by rw [getElem?_set_of_getElem? hw, if_pos rfl], rfl,
        by rw [hbegun]; trivial⟩

theorem Attended.run (h : Attended s) (hs : Sound s) {is : List Nat} (hr : s.run? is = some s') :
    Attended s' := by
  induction is generalizing s with
  | nil =>
    cases hr
    exact h
  | cons i is ih =>
    obtain ⟨t, ht, hr⟩ := run?_cons.mp hr
    obtain ⟨w, hw, hturn⟩ := turn?_spec ht
    exact ih (h.turn hs hw hturn) (hs.turn hw hturn).1 hr

/-! ## Somebody gets on -/

/-- Who is waited for: one worker makes the outcome, and it can have a turn. -/
theorem Attended.owner (h : Attended s) (hs : Sound s) (hwaits : s.Waits w) :
    ∃ j, s.Makes j w.contract.name ∧ (∀ k, s.Makes k w.contract.name → k = j) ∧
      ∃ t, s.turn? j = some t := by
  obtain ⟨j, hj⟩ := hwaits.claimed
  have hmakes := h _ j hj hwaits.missing
  exact ⟨j, hmakes, fun k hk => Option.some.inj ((hk.claimed hs).symm.trans hj), hmakes.turn⟩

/-- As long as somebody is not through, somebody can have a turn: the same worker, or the one that it
waits for. -/
theorem Attended.progress (h : Attended s) (hs : Sound s) (hover : ¬ s.IsOver) :
    ∃ i t, s.turn? i = some t := by
  obtain ⟨w, hmem, hleft⟩ : ∃ w ∈ s.workers, ¬ w.IsOver := by simpa [IsOver] using hover
  obtain ⟨i, hw⟩ := List.getElem?_of_mem hmem
  cases ht : s.turn? i with
  | some t => exact ⟨i, t, ht⟩
  | none =>
    have hwaits : s.Waits w := ((turn?_eq_none_iff hw).mp ht).resolve_left hleft
    obtain ⟨j, -, -, t, hj⟩ := h.owner hs hwaits
    exact ⟨j, t, hj⟩

/-- **No deadlock.** However many workers look contracts up, one after another, and in whatever order
they have had turns up to now:

* as long as some lookup is not over, some worker can have a turn;
* a worker that is not through and cannot have one waits for an outcome, and nothing else makes it wait;
* the outcome that it waits for is being made by one worker, and that one can have a turn. -/
theorem never_deadlocked (threads : List (Contract × List Contract)) (is : List Nat)
    {s : SharedCache} (h : (start threads).run? is = some s) :
    (¬ s.IsOver → ∃ i t, s.turn? i = some t) ∧
    (∀ (i : Nat) w, s.workers[i]? = some w → (s.turn? i = none ↔ w.IsOver ∨ s.Waits w)) ∧
    ∀ (i : Nat) w, s.workers[i]? = some w → s.Waits w →
      ∃ j, s.Makes j w.contract.name ∧ (∀ k, s.Makes k w.contract.name → k = j) ∧
        ∃ t, s.turn? j = some t := by
  obtain ⟨hsound, -⟩ := (sound_start threads).run h
  have hattended := (attended_start threads).run (sound_start threads) h
  exact ⟨hattended.progress hsound, fun i w hw => turn?_eq_none_iff hw,
    fun i w _ hwaits => hattended.owner hsound hwaits⟩

/-- Two workers that look one contract up: the first has begun, and the second has found the entry. -/
def halfway (c : Contract) : SharedCache :=
  ⟨({} : Cache).pin c.name c.fingerprint, [(c.name, 0)],
    [{ contract := c, phase := .begun }, { contract := c, phase := .entered c.fingerprint }]⟩

theorem run_halfway (c : Contract) :
    (start [(c, []), (c, [])]).run? [0, 0, 0, 1] = some (halfway c) := by
  simp [start, run?, turn?, section?, halfway, Cache.entry?, Cache.pin, Cache.pinned,
    Cache.outcome?]

theorem waits_halfway (c : Contract) :
    (halfway c).Waits { contract := c, phase := .entered c.fingerprint } where
  phase := rfl
  missing := by simp [halfway, Cache.outcome?, Cache.entry?, Cache.pin]
  claimed := ⟨0, by simp [halfway]⟩

theorem never_deadlocked_halfway :
    let c := Cache.listing "shop::IWidgets"
    ∃ s w, (start [(c, []), (c, [])]).run? [0, 0, 0, 1] = some s ∧ s.workers[1]? = some w ∧
      s.Waits w ∧ ¬ s.IsOver ∧ (∃ i t, s.turn? i = some t) ∧ s.turn? 1 = none ∧
      ∃ j, s.Makes j c.name ∧ ∃ t, s.turn? j = some t := by
  intro c
  have hwaits := waits_halfway c
  have hover : ¬ (halfway c).IsOver := by
    intro hover
    obtain ⟨-, outcome, hp⟩ := hover { contract := c, phase := .begun } (by simp [halfway])
    cases hp
  obtain ⟨hprogress, hblocked, howner⟩ := never_deadlocked _ _ (run_halfway c)
  obtain ⟨j, hmakes, -, hturn⟩ := howner 1 _ rfl hwaits
  exact ⟨_, _, run_halfway c, rfl, hwaits, hover, hprogress hover,
    (hblocked 1 _ rfl).mpr (Or.inr hwaits), j, hmakes, hturn⟩

end SharedCache

end ClientSynth

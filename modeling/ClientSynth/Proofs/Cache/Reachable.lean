import ClientSynth.Proofs.Cache.Lookups
import ClientSynth.Proofs.Cache.Moves

/-!
# `ClientSynth.Proofs.Cache.Reachable` — what is so at every instant

Workers use one cache at the same time, and after any turns some of them stand between two sections.
`Standing` says what is so of a worker by its phase, `Keeps` what the move of one worker leaves as it
was for the others, and `Sound` what is so of every state that can be reached.

> `theorem sound_at_every_instant (h : (start threads).run? is = some s) (h' : s.run? js = some s') : …`
-/

set_option autoImplicit false

namespace ClientSynth

/-! ## Caches that only grow -/

/-- A cache has grown: fingerprints, outcomes and owners that were there are the same. -/
structure Cache.Grows (cache later : Cache) : Prop where
  entry : ∀ interface entry, cache.entry? interface = some entry →
    ∃ entry', later.entry? interface = some entry' ∧ entry'.fingerprint = entry.fingerprint ∧
      ∀ outcome, entry.outcome = some outcome → entry'.outcome = some outcome
  owner : ∀ typeName interface, cache.owner? typeName = some interface →
    later.owner? typeName = some interface

namespace Cache.Grows

variable {cache later last : Cache}

theorem refl (cache : Cache) : cache.Grows cache :=
  ⟨fun _ entry he => ⟨entry, he, rfl, fun _ ho => ho⟩, fun _ _ h => h⟩

theorem trans (h : cache.Grows later) (h' : later.Grows last) : cache.Grows last where
  entry interface entry he := by
    obtain ⟨entry', he', hf, ho⟩ := h.entry _ _ he
    obtain ⟨entry'', he'', hf', ho'⟩ := h'.entry _ _ he'
    exact ⟨entry'', he'', hf'.trans hf, fun o hs => ho' o (ho o hs)⟩
  owner typeName interface hn := h'.owner _ _ (h.owner _ _ hn)

theorem count (cache : Cache) (change : Counters → Counters) : cache.Grows (cache.count change) :=
  ⟨fun _ entry he => ⟨entry, he, rfl, fun _ ho => ho⟩, fun _ _ h => h⟩

theorem pin (cache : Cache) (interface fingerprint : String) :
    cache.Grows (cache.pin interface fingerprint) where
  entry other entry he := by
    exact ⟨entry, entry?_pin_of_some _ _ he, rfl, fun _ ho => ho⟩
  owner typeName owner h := by rw [owner?_pin, h]

theorem claimName (cache : Cache) (interface : String) : cache.Grows (cache.claimName interface) where
  entry other entry he := ⟨entry, by rw [entry?_claimName, he], rfl, fun _ ho => ho⟩
  owner typeName owner h := by
    rw [owner?_claimName]
    split
    · rename_i ht
      subst ht
      rw [h, Option.getD_some]
    · exact h

/-- Publishing is growth where no outcome was published before. -/
theorem publish {interface : String} {entry : CacheEntry}
    (he : cache.entry? interface = some entry) (hnone : entry.outcome = none) (outcome : Outcome) :
    cache.Grows (cache.publish interface outcome) where
  entry other e ho := by
    rw [entry?_publish]
    split
    · rename_i heq
      subst heq
      rcases Option.some.inj (he.symm.trans ho) with rfl
      rw [he]
      exact ⟨_, rfl, rfl, fun o hs => absurd (hnone.symm.trans hs) (by simp)⟩
    · exact ⟨e, ho, rfl, fun _ hs => hs⟩
  owner _ _ h := h

theorem entry_of_outcome (h : cache.Grows later) {interface fingerprint : String} {outcome : Outcome}
    (he : cache.entry? interface = some ⟨fingerprint, some outcome⟩) :
    later.entry? interface = some ⟨fingerprint, some outcome⟩ := by
  obtain ⟨⟨fingerprint', outcome'⟩, he', hf, ho⟩ := h.entry _ _ he
  rw [he']
  rcases hf with rfl
  rcases ho outcome rfl with rfl
  rfl

/-- An outcome that is not there has not been there. -/
theorem outcome?_eq_none (h : cache.Grows later) {interface : String}
    (hnone : later.outcome? interface = none) : cache.outcome? interface = none := by
  refine Option.eq_none_iff_forall_ne_some.mpr fun outcome ho => ?_
  obtain ⟨entry, he, hmade⟩ := outcome?_eq_some_iff.mp ho
  obtain ⟨entry', he', -, hkept⟩ := h.entry _ _ he
  have hlater : later.outcome? interface = some outcome :=
    outcome?_eq_some_iff.mpr ⟨entry', he', hkept _ hmade⟩
  exact absurd (hnone.symm.trans hlater) (by simp)

/-- What an entry answered, it answers ever after. -/
theorem answers (h : cache.Grows later) {c : Contract} {outcome : Outcome}
    (ha : ∃ entry, cache.entry? c.name = some entry ∧ entry.Answers c outcome) :
    ∃ entry, later.entry? c.name = some entry ∧ entry.Answers c outcome := by
  obtain ⟨entry, he, ha⟩ := ha
  obtain ⟨entry', he', hf, ho⟩ := h.entry _ _ he
  refine ⟨entry', he', ?_⟩
  unfold CacheEntry.Answers at ha ⊢
  rw [hf]
  split at ha
  · rw [if_pos (by assumption)]
    exact ho _ ha
  · rw [if_neg (by assumption)]
    exact ha

end Cache.Grows

namespace SharedCache

variable {cache cache' : Cache} {claims claims' : List (String × Nat)} {i j : Nat} {c : Contract}
  {phase phase' : Phase}

/-! ## One move -/

/-- Worker `i` is making the outcome for a contract. -/
structure Making (cache : Cache) (claims : List (String × Nat)) (i : Nat) (c : Contract) : Prop where
  claimed : claims.lookup c.name = some i
  entry : cache.entry? c.name = some ⟨c.fingerprint, none⟩

/-- What is so of a worker that looks a contract up, by how far it is. -/
def Standing (cache : Cache) (claims : List (String × Nat)) (i : Nat) (c : Contract) : Phase → Prop
  | .start | .absent => True
  | .entered pinned => ∃ entry, cache.entry? c.name = some entry ∧ entry.fingerprint = pinned
  | .conflicting pinned =>
    pinned ≠ c.fingerprint ∧ ∃ entry, cache.entry? c.name = some entry ∧ entry.fingerprint = pinned
  | .begun | .synthesized _ => Making cache claims i c
  | .made outcome =>
    Making cache claims i c ∧
      (outcome.isOk = true → cache.owner? (TypeName.ofInterface c.name) = some c.name)
  | .missed outcome | .failed outcome | .found outcome =>
    cache.entry? c.name = some ⟨c.fingerprint, some outcome⟩
  | .returned outcome => ∃ entry, cache.entry? c.name = some entry ∧ entry.Answers c outcome

/-- What the move of worker `i` leaves as it was. -/
structure Keeps (cache : Cache) (claims : List (String × Nat)) (i : Nat) (cache' : Cache)
    (claims' : List (String × Nat)) : Prop where
  grows : cache.Grows cache'
  claimed : ∀ interface j, claims.lookup interface = some j → claims'.lookup interface = some j
  unclaimed : ∀ interface j, j ≠ i → claims'.lookup interface = some j →
    claims.lookup interface = some j
  /-- Outcomes that others are making stay away. -/
  making : ∀ j c, j ≠ i → Making cache claims j c →
    cache'.entry? c.name = some ⟨c.fingerprint, none⟩

theorem lookup_append_of_some {interface other : String}
    (h : claims.lookup interface = some j) :
    (claims ++ [(other, i)]).lookup interface = some j := by
  rw [List.lookup_append, h, Option.some_or]

theorem Keeps.count (cache : Cache) (claims : List (String × Nat)) (i : Nat)
    (change : Counters → Counters) : Keeps cache claims i (cache.count change) claims :=
  ⟨.count cache change, fun _ _ h => h, fun _ _ _ h => h, fun _ _ _ hm => hm.entry⟩

theorem Keeps.refl (cache : Cache) (claims : List (String × Nat)) (i : Nat) :
    Keeps cache claims i cache claims :=
  ⟨.refl cache, fun _ _ h => h, fun _ _ _ h => h, fun _ _ _ hm => hm.entry⟩

theorem Moves.keeps (h : Moves cache claims i c phase phase' cache' claims')
    (hs : Standing cache claims i c phase) : Keeps cache claims i cache' claims' := by
  cases h with
  | look | miss | differ | find | giveUp | synthesize | lose => exact .refl cache claims i
  | refuse | countMiss | countFailedMiss | countFailure | countHit => exact .count cache claims i _
  | pin =>
    exact ⟨.pin .., fun _ _ hl => hl, fun _ _ _ hl => hl,
      fun _ _ _ hm => Cache.entry?_pin_of_some _ _ hm.entry⟩
  | begin =>
    refine ⟨.refl cache, fun _ _ hl => lookup_append_of_some hl, fun interface j hj hl => ?_,
      fun _ _ _ hm => hm.entry⟩
    rw [List.lookup_append] at hl
    cases hold : claims.lookup interface with
    | some k => rwa [hold, Option.some_or] at hl
    | none =>
      rw [hold, Option.none_or, List.lookup_cons] at hl
      split at hl
      · exact absurd (Option.some.inj hl).symm hj
      · cases hl
  | win =>
    refine ⟨.claimName .., fun _ _ hl => hl, fun _ _ _ hl => hl, fun _ _ _ hm => ?_⟩
    rw [Cache.entry?_claimName, hm.entry]
  | publish outcome =>
    -- Only the worker with the claim publishes, so nobody else is making this outcome.
    obtain ⟨hmaking, -⟩ := hs
    refine ⟨.publish hmaking.entry rfl outcome, fun _ _ hl => hl, fun _ _ _ hl => hl,
      fun j d hj hm => ?_⟩
    rw [Cache.entry?_publish, if_neg, hm.entry]
    intro hd
    have hclaim := hm.claimed
    rw [hd, hmaking.claimed] at hclaim
    exact hj (Option.some.inj hclaim).symm

/-- A move leads to the standing of the next phase. -/
theorem Moves.standing (h : Moves cache claims i c phase phase' cache' claims')
    (hs : Standing cache claims i c phase) : Standing cache' claims' i c phase' := by
  cases h with
  | look entry he => exact ⟨entry, he, rfl⟩
  | miss => trivial
  | pin =>
    refine ⟨_, by rw [Cache.entry?_pin, if_pos rfl], ?_⟩
    rw [Cache.pinned_eq]
  | differ pinned hp => exact ⟨hp, hs⟩
  | find outcome ho =>
    obtain ⟨⟨fingerprint, made⟩, he, hf⟩ := hs
    rcases hf with rfl
    have hmade : made = some outcome := by simpa [Cache.outcome?, he] using ho
    rw [Standing, he, hmade]
  | begin ho hc =>
    obtain ⟨⟨fingerprint, outcome⟩, he, hf⟩ := hs
    rcases hf with rfl
    have hnone : outcome = none := by simpa [Cache.outcome?, he] using ho
    exact ⟨by simp [List.lookup_append, hc], by rw [he, hnone]⟩
  | refuse pinned =>
    obtain ⟨hp, entry, he, rfl⟩ := hs
    exact ⟨entry, he, CacheEntry.answers_conflict hp⟩
  | giveUp e he => exact ⟨hs, fun hok => absurd hok (by simp [Except.isOk, Except.toBool])⟩
  | synthesize => exact hs
  | lose implementation owner hr =>
    exact ⟨hs, fun hok => absurd hok (by simp [Except.isOk, Except.toBool])⟩
  | win implementation hr =>
    have hm : Making cache claims i c := hs
    exact ⟨⟨hm.claimed, by rw [Cache.entry?_claimName, hm.entry]⟩,
      fun _ => Cache.owner?_claimName_self _ _ hr⟩
  | publish outcome =>
    obtain ⟨hm, -⟩ := hs
    rw [Standing, Cache.entry?_publish, if_pos rfl, hm.entry]
    rfl
  | countFailedMiss => exact hs
  | countMiss | countFailure | countHit => exact ⟨_, hs, CacheEntry.answers_outcome ..⟩

/-- A move of one worker leaves the others standing as they did. -/
theorem Standing.keep (hs : Standing cache claims j c phase) (hj : j ≠ i)
    (hk : Keeps cache claims i cache' claims') : Standing cache' claims' j c phase := by
  have hmaking : Making cache claims j c → Making cache' claims' j c :=
    fun hm => ⟨hk.claimed _ _ hm.claimed, hk.making j c hj hm⟩
  have hentry : ∀ pinned, (∃ entry, cache.entry? c.name = some entry ∧ entry.fingerprint = pinned) →
      ∃ entry, cache'.entry? c.name = some entry ∧ entry.fingerprint = pinned := by
    rintro pinned ⟨entry, he, hf⟩
    obtain ⟨entry', he', hf', -⟩ := hk.grows.entry _ _ he
    exact ⟨entry', he', hf'.trans hf⟩
  cases phase with
  | start | absent => trivial
  | entered pinned => exact hentry pinned hs
  | conflicting pinned => exact ⟨hs.1, hentry pinned hs.2⟩
  | begun | synthesized => exact hmaking hs
  | made outcome => exact ⟨hmaking hs.1, fun hok => hk.grows.owner _ _ (hs.2 hok)⟩
  | missed | failed | found => exact hk.grows.entry_of_outcome hs
  | returned => exact hk.grows.answers hs

/-- Interfaces with an implementation own their type names. -/
def Owned (cache : Cache) : Prop :=
  ∀ interface shared, cache.outcome? interface = some (.ok shared) →
    cache.owner? (TypeName.ofInterface interface) = some interface

theorem Moves.owned (h : Moves cache claims i c phase phase' cache' claims')
    (hs : Standing cache claims i c phase) (ho : Owned cache) : Owned cache' := by
  intro interface shared hout
  cases h with
  | look | miss | differ | find | begin | giveUp | synthesize | lose => exact ho _ _ hout
  | refuse | countMiss | countFailedMiss | countFailure | countHit => exact ho _ _ hout
  | pin =>
    obtain ⟨entry, he, hmade⟩ := Cache.outcome?_eq_some_iff.mp hout
    rw [Cache.owner?_pin]
    rcases Cache.entry?_pin_eq_some _ _ he with hold | ⟨-, rfl⟩
    · exact ho _ shared (Cache.outcome?_eq_some_iff.mpr ⟨entry, hold, hmade⟩)
    · cases hmade
  | win =>
    -- A claim adds an owner and takes none away.
    obtain ⟨entry, he, hmade⟩ := Cache.outcome?_eq_some_iff.mp hout
    rw [Cache.entry?_claimName] at he
    exact (Cache.Grows.claimName cache c.name).owner _ _
      (ho _ shared (Cache.outcome?_eq_some_iff.mpr ⟨entry, he, hmade⟩))
  | publish outcome =>
    obtain ⟨entry, he, hmade⟩ := Cache.outcome?_eq_some_iff.mp hout
    rw [Cache.owner?_publish]
    rcases Cache.entry?_publish_eq_some _ _ he with hold | ⟨rfl, old, -, rfl⟩
    · exact ho _ shared (Cache.outcome?_eq_some_iff.mpr ⟨entry, hold, hmade⟩)
    · -- The worker claimed the type name before it came here.
      rcases Option.some.inj hmade with rfl
      exact hs.2 rfl

/-- The one move that adds a claim looks first whether there is one. -/
theorem Moves.nodup_claims (h : Moves cache claims i c phase phase' cache' claims')
    (hn : (claims.map (·.1)).Nodup) : (claims'.map (·.1)).Nodup := by
  cases h with
  | begin ho hc =>
    rw [List.map_append]
    refine nodup_snoc hn fun hx => ?_
    obtain ⟨claim, hmem, heq⟩ := List.mem_map.mp hx
    have hnot := List.lookup_eq_none_iff.mp hc claim hmem
    simp [heq] at hnot
  | _ => exact hn

/-! ## Runs -/

/-- The interface whose outcome worker `i` begins to make with its next turn, if it does. -/
def beginning? (s : SharedCache) (i : Nat) : Option String := do
  let w ← s.workers[i]?
  let (phase, _) ← section? s.cache s.claims i w.contract w.phase
  if phase = .begun then some w.contract.name else none

/-- The interfaces whose outcomes are begun to be made in a row of turns, once for each time. -/
def beginnings (s : SharedCache) : List Nat → List String
  | [] => []
  | i :: is =>
    match s.turn? i with
    | some t => (s.beginning? i).toList ++ t.beginnings is
    | none => []

/-- What is so at every instant. -/
structure Sound (s : SharedCache) : Prop where
  standing : ∀ i w, s.workers[i]? = some w → Standing s.cache s.claims i w.contract w.phase
  owned : Owned s.cache
  /-- Nobody begins where somebody has begun. -/
  claims : (s.claims.map (·.1)).Nodup

theorem sound_start (threads : List (Contract × List Contract)) : Sound (start threads) where
  standing i w hw := by
    obtain ⟨t, -, rfl⟩ : ∃ t, threads[i]? = some t ∧ { contract := t.1, later := t.2 } = w := by
      simpa [start] using hw
    trivial
  owned _ _ h := absurd h (by simp [start, Cache.outcome?, Cache.entry?])
  claims := List.nodup_nil

variable {s s' : SharedCache} {w : Worker}

/-- A turn begins for at most one interface, and puts down who does. -/
theorem Turn.map_claims (hw : s.workers[i]? = some w) (h : Turn s i w s') :
    s'.claims.map (·.1) = s.claims.map (·.1) ++ (s.beginning? i).toList := by
  cases h with
  | next outcome c later hp hl => simp [beginning?, hw, hp, section?]
  | move phase cache claims hm =>
    have hsection := moves_iff.mpr hm
    generalize hp : w.phase = before at hm hsection
    cases hm <;> simp [beginning?, hw, hp, hsection]

/-- **A turn keeps everything sound**, and the cache only grows by it. -/
theorem Sound.turn (h : Sound s) (hw : s.workers[i]? = some w) (ht : Turn s i w s') :
    Sound s' ∧ s.cache.Grows s'.cache := by
  have hclaims := ht.map_claims hw
  cases ht with
  | next outcome c later hp hl =>
    refine ⟨⟨fun j v hv => ?_, h.owned, h.claims⟩, .refl _⟩
    rw [getElem?_set_of_getElem? hw] at hv
    split at hv
    · cases hv
      trivial
    · exact h.standing j v hv
  | move phase cache claims hm =>
    have hs := h.standing i w hw
    have hk := hm.keeps hs
    -- The worker stands where its move has led, and all others as they did.
    refine ⟨⟨fun j v hv => ?_, hm.owned hs h.owned, hm.nodup_claims h.claims⟩, hk.grows⟩
    rw [getElem?_set_of_getElem? hw] at hv
    split at hv
    · rename_i hj
      subst hj
      cases hv
      exact hm.standing hs
    · rename_i hj
      exact (h.standing j v hv).keep hj hk

theorem Sound.run (h : Sound s) {is : List Nat} (hr : s.run? is = some s') :
    Sound s' ∧ s.cache.Grows s'.cache := by
  induction is generalizing s with
  | nil =>
    cases hr
    exact ⟨h, .refl _⟩
  | cons i is ih =>
    obtain ⟨t, ht, hr⟩ := run?_cons.mp hr
    obtain ⟨w, hw, hturn⟩ := turn?_spec ht
    obtain ⟨hsound, hgrows⟩ := h.turn hw hturn
    obtain ⟨hsound', hgrows'⟩ := ih hsound hr
    exact ⟨hsound', hgrows.trans hgrows'⟩

/-- The claims tell for which interfaces somebody has begun. -/
theorem claims_run {is : List Nat} (hr : s.run? is = some s') :
    s'.claims.map (·.1) = s.claims.map (·.1) ++ s.beginnings is := by
  induction is generalizing s with
  | nil =>
    cases hr
    exact (List.append_nil _).symm
  | cons i is ih =>
    obtain ⟨t, ht, hr⟩ := run?_cons.mp hr
    obtain ⟨w, hw, hturn⟩ := turn?_spec ht
    rw [ih hr, hturn.map_claims hw, beginnings, ht, List.append_assoc]

/-- **At every instant.** However many workers look contracts up, and in whatever order they have had
turns up to now (`is`) and will have turns (`js`):

* for no interface is synthesis begun twice;
* the fingerprint of an entry never changes, and neither does an outcome that is there;
* a type name that is claimed keeps its owner;
* an interface with an implementation owns its type name, and two such interfaces have different ones. -/
theorem sound_at_every_instant (threads : List (Contract × List Contract)) (is js : List Nat)
    {s s' : SharedCache} (h : (start threads).run? is = some s) (h' : s.run? js = some s') :
    ((start threads).beginnings (is ++ js)).Nodup ∧
    (∀ interface entry, s.cache.entry? interface = some entry →
      ∃ entry', s'.cache.entry? interface = some entry' ∧ entry'.fingerprint = entry.fingerprint ∧
        ∀ outcome, entry.outcome = some outcome → entry'.outcome = some outcome) ∧
    (∀ typeName interface, s.cache.owner? typeName = some interface →
      s'.cache.owner? typeName = some interface) ∧
    (∀ interface shared, s.cache.outcome? interface = some (.ok shared) →
      s.cache.owner? (TypeName.ofInterface interface) = some interface) ∧
    (∀ interface other shared shared', interface ≠ other →
      s.cache.outcome? interface = some (.ok shared) → s.cache.outcome? other = some (.ok shared') →
      TypeName.ofInterface interface ≠ TypeName.ofInterface other) := by
  obtain ⟨hsound, -⟩ := (sound_start threads).run h
  obtain ⟨hsound', hgrows⟩ := hsound.run h'
  have hall : (start threads).run? (is ++ js) = some s' := run?_append.mpr ⟨s, h, h'⟩
  refine ⟨?_, hgrows.entry, hgrows.owner, hsound.owned, fun x y a b hne hx hy hname => hne ?_⟩
  · -- Each beginning is put down as a claim, and no two claims are for one interface.
    have hclaims := claims_run hall
    rw [show (start threads).claims = [] from rfl, List.map_nil, List.nil_append] at hclaims
    rw [← hclaims]
    exact hsound'.claims
  · have howner := hsound.owned x a hx
    rw [hname, hsound.owned y b hy] at howner
    exact (Option.some.inj howner).symm

/-! ## A race -/

section Race

variable {a b c : Contract} {i j k : Implementation}

/-- Three lookups that began side by side. All have synthesized, and none has a type name yet. -/
def racing (a b c : Contract) (i j k : Implementation) : SharedCache where
  cache :=
    { entries :=
        [(a.name, { fingerprint := a.fingerprint }), (b.name, { fingerprint := b.fingerprint }),
         (c.name, { fingerprint := c.fingerprint })] }
  claims := [(a.name, 0), (b.name, 1), (c.name, 2)]
  workers :=
    [{ contract := a, phase := .synthesized i }, { contract := b, phase := .synthesized j },
     { contract := c, phase := .synthesized k }]

/-- Two of the three are over, and the third is where it was. -/
def overtaken (a b c : Contract) (i j k : Implementation) : SharedCache where
  cache :=
    { entries :=
        [(a.name, { fingerprint := a.fingerprint, outcome := some (.ok ⟨0, i⟩) }),
         (b.name, { fingerprint := b.fingerprint, outcome := some (.ok ⟨1, j⟩) }),
         (c.name, { fingerprint := c.fingerprint })]
      typeNames :=
        [(TypeName.ofInterface a.name, a.name), (TypeName.ofInterface b.name, b.name)]
      counters := { misses := 2 } }
  claims := [(a.name, 0), (b.name, 1), (c.name, 2)]
  workers :=
    [{ contract := a, phase := .returned (.ok ⟨0, i⟩) },
     { contract := b, phase := .returned (.ok ⟨1, j⟩) },
     { contract := c, phase := .synthesized k }]

/-- The end of the race if the third asks for the type name that the first has got. -/
def raced (a b c : Contract) (i j : Implementation) : SharedCache where
  cache :=
    { entries :=
        [(a.name, { fingerprint := a.fingerprint, outcome := some (.ok ⟨0, i⟩) }),
         (b.name, { fingerprint := b.fingerprint, outcome := some (.ok ⟨1, j⟩) }),
         (c.name,
          { fingerprint := c.fingerprint, outcome := some (.error (Cache.nameTaken c.name a.name)) })]
      typeNames :=
        [(TypeName.ofInterface a.name, a.name), (TypeName.ofInterface b.name, b.name)]
      counters := { misses := 3, failures := 1 } }
  claims := [(a.name, 0), (b.name, 1), (c.name, 2)]
  workers :=
    [{ contract := a, phase := .returned (.ok ⟨0, i⟩) },
     { contract := b, phase := .returned (.ok ⟨1, j⟩) },
     { contract := c, phase := .returned (.error (Cache.nameTaken c.name a.name)) }]

theorem run_racing (hi : a.synthesize = .ok i) (hj : b.synthesize = .ok j)
    (hk : c.synthesize = .ok k) (hba : b.name ≠ a.name) (hca : c.name ≠ a.name)
    (hcb : c.name ≠ b.name) :
    (start [(a, []), (b, []), (c, [])]).run? [0, 1, 2, 0, 1, 2, 0, 1, 2, 0, 1, 2] =
      some (racing a b c i j k) := by
  simp [start, run?, turn?, section?, racing, Cache.entry?, Cache.pin, Cache.pinned,
    Cache.outcome?, Cache.attempt, Cache.rival?, List.lookup_cons, beq_false_of_ne, hi, hj, hk,
    hba, hca, hcb]

theorem run_overtaken (hba : b.name ≠ a.name)
    (hname : TypeName.ofInterface b.name ≠ TypeName.ofInterface a.name) :
    (racing a b c i j k).run? [0, 0, 0, 1, 1, 1] = some (overtaken a b c i j k) := by
  simp [run?, turn?, section?, racing, overtaken, Cache.rival?, Cache.claim, Cache.claimName,
    Cache.publish, Cache.publishIn, Cache.count, Counters.miss, List.lookup_cons, beq_false_of_ne,
    hname, hba.symm]

theorem run_raced (hca : c.name ≠ a.name) (hcb : c.name ≠ b.name)
    (hname : TypeName.ofInterface c.name = TypeName.ofInterface a.name) :
    (overtaken a b c i j k).run? [2, 2, 2, 2] = some (raced a b c i j) := by
  simp [run?, turn?, section?, overtaken, raced, Cache.rival?, Cache.claim, Cache.publish,
    Cache.publishIn, Cache.count, Counters.miss, Counters.failure, Option.filter, hname, hca.symm,
    hcb.symm]

theorem isOver_raced : (raced a b c i j).IsOver := by
  simp [IsOver, raced, Worker.IsOver]

end Race

theorem run_race :
    let shop := Cache.listing "shop::IWidgets"
    let gadgets := Cache.listing "depot::IGadgets"
    let depot := Cache.listing "depot::IWidgets"
    ∃ i j k, (start ([shop, gadgets, depot].map fun c => (c, []))).run?
        [0, 1, 2, 0, 1, 2, 0, 1, 2, 0, 1, 2, 0, 0, 0, 1, 1, 1] =
          some (overtaken shop gadgets depot i j k) ∧
      (overtaken shop gadgets depot i j k).run? [2, 2, 2, 2] =
        some (raced shop gadgets depot i j) := by
  intro shop gadgets depot
  obtain ⟨⟨i, hi⟩, ⟨j, hj⟩, ⟨k, hk⟩⟩ := Cache.synthesize_listing
  have hracing := run_racing hi hj hk (by decide) (by decide) (by decide)
  have hovertaken : (racing shop gadgets depot i j k).run? [0, 0, 0, 1, 1, 1] =
      some (overtaken shop gadgets depot i j k) := run_overtaken (by decide) (by decide +kernel)
  exact ⟨i, j, k, run?_append.mpr ⟨_, hracing, hovertaken⟩,
    run_raced (by decide) (by decide) (by decide +kernel)⟩

/-- While the last of three is between its synthesis and its claim, the others have outcomes. It comes
to an error, and leaves them and the owner of the type name as they are. -/
theorem sound_at_every_instant_race :
    let shop := Cache.listing "shop::IWidgets"
    let gadgets := Cache.listing "depot::IGadgets"
    let depot := Cache.listing "depot::IWidgets"
    let fresh := start ([shop, gadgets, depot].map fun c => (c, []))
    let before := [0, 1, 2, 0, 1, 2, 0, 1, 2, 0, 1, 2, 0, 0, 0, 1, 1, 1]
    ∃ s s' i j k, fresh.run? before = some s ∧ s.run? [2, 2, 2, 2] = some s' ∧
      s.workers[2]? = some { contract := depot, phase := .synthesized k } ∧
      s.cache.outcome? shop.name = some (.ok i) ∧ s.cache.outcome? gadgets.name = some (.ok j) ∧
      s.cache.outcome? depot.name = none ∧
      s'.cache.outcome? depot.name = some (.error (Cache.nameTaken depot.name shop.name)) ∧
      (fresh.beginnings (before ++ [2, 2, 2, 2])).Nodup ∧
      (∃ entry, s'.cache.entry? depot.name = some entry ∧ entry.fingerprint = depot.fingerprint) ∧
      (∃ entry, s'.cache.entry? shop.name = some entry ∧ entry.outcome = some (.ok i)) ∧
      s'.cache.owner? (TypeName.ofInterface depot.name) = some shop.name ∧
      TypeName.ofInterface shop.name ≠ TypeName.ofInterface gadgets.name := by
  intro shop gadgets depot fresh before
  obtain ⟨i, j, k, hrun, hrest⟩ := run_race
  obtain ⟨hbegin, hentry, howner, hown, hdiffer⟩ := sound_at_every_instant _ before _ hrun hrest
  have hname : TypeName.ofInterface shop.name = TypeName.ofInterface depot.name := by decide +kernel
  have hshop : (overtaken shop gadgets depot i j k).cache.outcome? shop.name = some (.ok ⟨0, i⟩) :=
    rfl
  have hgadgets :
      (overtaken shop gadgets depot i j k).cache.outcome? gadgets.name = some (.ok ⟨1, j⟩) := rfl
  obtain ⟨entry, hlater, hfingerprint, -⟩ := hentry depot.name { fingerprint := depot.fingerprint } rfl
  obtain ⟨entry', hlater', -, houtcome⟩ := hentry shop.name _ rfl
  refine ⟨_, _, ⟨0, i⟩, ⟨1, j⟩, k, hrun, hrest, rfl, hshop, hgadgets, rfl, rfl, hbegin,
    ⟨entry, hlater, hfingerprint⟩, ⟨entry', hlater', houtcome _ rfl⟩, ?_, ?_⟩
  · rw [← hname]
    exact howner _ _ (hown _ _ hshop)
  · exact hdiffer _ _ _ _ (by decide) hshop hgadgets

end SharedCache

end ClientSynth

import ClientSynth.Proofs.Cache.Tally

/-!
# `ClientSynth.Proofs.Cache.Serializable` — lookups at the same time are lookups in some order

Workers make one lookup each, and their sections follow each other in any order. The lookups that made
outcomes are put in the order in which these were decided: a failure when the contract was attempted, or
when the type name turned out to be taken, and a success when the type name was claimed. One after
another they decide the same (`Explained`). The lookups that made nothing can come after them, for all
they get is the answer of an entry.

> `theorem serializable (h : (start (contracts.map fun c => (c, []))).run? is = some s) (hover : s.IsOver) : ∃ order, …`
-/

set_option autoImplicit false

namespace ClientSynth.SharedCache

variable {contracts : List Contract} {s s' : SharedCache} {l m : Lookup} {order : List Lookup}
  {phase : Phase}

/-! ## The order of decisions -/

/-- The outcome of a lookup is decided, and lookups in this order decide it so. -/
structure Decided (order : List Lookup) (l : Lookup) (outcome : Outcome) : Prop where
  mem : l ∈ order
  entry : Cache.entry? (({} : Cache).after order) l.interface = some ⟨l.fingerprint, some outcome⟩

/-- Which lookups have decided, by how far they are. -/
def Committed (order : List Lookup) (claims : List (String × Nat)) (l : Lookup) : Phase → Prop
  | .begun => l ∉ order
  | .synthesized i => l ∉ order ∧ l.contract.synthesize = .ok i
  | .made outcome | .missed outcome | .failed outcome => Decided order l outcome
  | .returned outcome => claims.lookup l.interface = some l.caller → Decided order l outcome
  | .start | .absent | .entered _ | .conflicting _ | .found _ => True

/-- The lookups that have decided, one after another, explain what there is. -/
structure Explained (contracts : List Contract) (s : SharedCache) (order : List Lookup) : Prop where
  firsts : Cache.Firsts order
  names : (({} : Cache).after order).typeNames = s.cache.typeNames
  /-- What they have entries for, there is. -/
  covered : ∀ interface entry, Cache.entry? (({} : Cache).after order) interface = some entry →
    ∃ entry', s.cache.entry? interface = some entry' ∧ entry'.fingerprint = entry.fingerprint
  /-- The outcomes that are there are theirs. -/
  published : ∀ interface entry, s.cache.entry? interface = some entry → entry.outcome ≠ none →
    Cache.entry? (({} : Cache).after order) interface = some entry
  /-- Entries are made by lookups. -/
  pinned : ∀ interface entry, s.cache.entry? interface = some entry →
    ∃ l ∈ Lookup.numbered contracts, l.interface = interface ∧ l.fingerprint = entry.fingerprint
  claimed : ∀ l ∈ order, l ∈ Lookup.numbered contracts ∧
    s.claims.lookup l.interface = some l.caller
  committed : ∀ l ∈ Lookup.numbered contracts, Committed order s.claims l (s.phaseOf l)

theorem explained_start (contracts : List Contract) :
    Explained contracts (start (contracts.map fun c => (c, []))) [] where
  firsts := .nil
  names := rfl
  covered _ _ h := absurd h (by simp [Cache.after, Cache.entry?])
  published _ _ h := absurd h (by simp [start, Cache.entry?])
  pinned _ _ h := absurd h (by simp [start, Cache.entry?])
  claimed _ h := absurd h (by simp)
  committed l hl := by
    rw [phaseOf_start hl]
    trivial

/-! ## One turn -/

theorem Decided.append {outcome : Outcome} (h : Decided order l outcome)
    (hin : Cache.Entered (({} : Cache).after order) m (({} : Cache).after (order ++ [m])))
    (hnone : Cache.entry? (({} : Cache).after order) m.interface = none) :
    Decided (order ++ [m]) l outcome := by
  refine ⟨List.mem_append_left _ h.mem, ?_⟩
  have hne : l.interface ≠ m.interface := fun e => by
    have hentry := h.entry
    rw [e, hnone] at hentry
    cases hentry
  rw [hin.entry, if_neg hne, h.entry]

/-- Other lookups stay as they are when one more has decided, or none has. -/
theorem Committed.keep (hc : Committed order s.claims m phase) (hne : m.caller ≠ l.caller)
    (hk : Keeps s.cache s.claims l.caller s'.cache s'.claims) {order' : List Lookup}
    (hmem : m ∈ order' → m ∈ order)
    (hdecided : ∀ outcome, Decided order m outcome → Decided order' m outcome) :
    Committed order' s'.claims m phase := by
  cases phase with
  | start | absent | entered | conflicting | found => trivial
  | begun => exact fun h => hc (hmem h)
  | synthesized => exact ⟨fun h => hc.1 (hmem h), hc.2⟩
  | made | missed | failed => exact hdecided _ hc
  | returned => exact fun h => hdecided _ (hc (hk.unclaimed _ _ hne h))

/-- A move makes an entry for nothing but its own contract. -/
theorem Moves.pinned {cache cache' : Cache} {claims claims' : List (String × Nat)} {phase' : Phase}
    (hm : Moves cache claims l.caller l.contract phase phase' cache' claims') {interface : String}
    {entry : CacheEntry} (he : cache'.entry? interface = some entry) :
    (∃ old, cache.entry? interface = some old ∧ old.fingerprint = entry.fingerprint) ∨
      (interface = l.interface ∧ entry.fingerprint = l.fingerprint) := by
  cases hm with
  | look | miss | differ | find | begin | giveUp | synthesize | lose => exact Or.inl ⟨entry, he, rfl⟩
  | refuse | countMiss | countFailedMiss | countFailure | countHit => exact Or.inl ⟨entry, he, rfl⟩
  | win =>
    rw [Cache.entry?_claimName] at he
    exact Or.inl ⟨entry, he, rfl⟩
  | pin =>
    rcases Cache.entry?_pin_eq_some _ _ he with hold | ⟨hi, rfl⟩
    · exact Or.inl ⟨entry, hold, rfl⟩
    · exact Or.inr ⟨hi, rfl⟩
  | publish outcome =>
    rcases Cache.entry?_publish_eq_some _ _ he with hold | ⟨rfl, old, hold, rfl⟩
    · exact Or.inl ⟨entry, hold, rfl⟩
    · exact Or.inl ⟨old, hold, rfl⟩

theorem Explained.pinned_step (h : Explained contracts s order) (ha : Advance contracts s l s')
    (interface : String) (entry : CacheEntry) (he : s'.cache.entry? interface = some entry) :
    ∃ l ∈ Lookup.numbered contracts, l.interface = interface ∧ l.fingerprint = entry.fingerprint := by
  rcases ha.moves.pinned he with ⟨old, hold, hf⟩ | ⟨rfl, hf⟩
  · obtain ⟨m, hm, hmi, hmf⟩ := h.pinned interface old hold
    exact ⟨m, hm, hmi, hmf.trans hf⟩
  · exact ⟨l, ha.mem, rfl, hf.symm⟩

/-- A turn that decides nothing. -/
theorem Explained.stay (h : Explained contracts s order) (ha : Advance contracts s l s')
    (hnames : s'.cache.typeNames = s.cache.typeNames)
    (hpublished : ∀ interface entry, s'.cache.entry? interface = some entry →
      entry.outcome ≠ none → s.cache.entry? interface = some entry ∨
        Cache.entry? (({} : Cache).after order) interface = some entry)
    (hself : Committed order s'.claims l (s'.phaseOf l)) : Explained contracts s' order where
  firsts := h.firsts
  names := h.names.trans hnames.symm
  covered interface entry he := by
    obtain ⟨entry', he', hf⟩ := h.covered _ _ he
    obtain ⟨entry'', he'', hf', -⟩ := ha.keeps.grows.entry _ _ he'
    exact ⟨entry'', he'', hf'.trans hf⟩
  published interface entry he ho := by
    rcases hpublished interface entry he ho with hold | hold
    · exact h.published _ _ hold ho
    · exact hold
  pinned := h.pinned_step ha
  claimed m hm := ⟨(h.claimed m hm).1, ha.keeps.claimed _ _ (h.claimed m hm).2⟩
  committed m hm := by
    by_cases hml : m = l
    · subst hml
      exact hself
    · obtain ⟨hne, hphase⟩ := ha.others m hm hml
      rw [hphase]
      exact (h.committed m hm).keep hne ha.keeps id fun _ hd => hd

/-- A lookup that has not decided is the first to do so for its interface. -/
theorem Explained.undecided (h : Explained contracts s order) (hl : l ∈ Lookup.numbered contracts)
    (hnot : l ∉ order) (hclaim : s.claims.lookup l.interface = some l.caller) :
    Cache.entry? (({} : Cache).after order) l.interface = none := by
  by_contra hne
  obtain ⟨m, hm, hmi⟩ := h.firsts.looked _ hne
  obtain ⟨hmn, hmclaim⟩ := h.claimed m hm
  rw [hmi, hclaim] at hmclaim
  have hml : m = l := Lookup.eq_of_caller_eq hl hmn (Option.some.inj hmclaim).symm
  exact hnot (hml ▸ hm)

/-- **A turn that decides.** The lookup comes to what it comes to after those that have decided
before. -/
theorem Explained.commit (h : Explained contracts s order) (ha : Advance contracts s l s')
    (hnot : l ∉ order) (hmaking : Making s.cache s.claims l.caller l.contract)
    (hphase : s'.phaseOf l = .made ((({} : Cache).after order).firstOutcome l))
    (hclaims : s'.claims = s.claims)
    (hentry : ∀ interface, s'.cache.entry? interface = s.cache.entry? interface)
    (hnames : s'.cache.typeNames =
      if ((({} : Cache).after order).firstOutcome l).isOk then
        (s.cache.claimName l.interface).typeNames
      else s.cache.typeNames) : Explained contracts s' (order ++ [l]) := by
  -- The lookup has the claim and has not decided, so it is the first of its interface in the order.
  have hnone := h.undecided ha.mem hnot hmaking.claimed
  obtain ⟨hin, hfirsts⟩ := h.firsts.append hnone
  have hmade : s.cache.entry? l.interface = some ⟨l.fingerprint, none⟩ := hmaking.entry
  refine ⟨hfirsts, ?_, fun interface entry he => ?_, fun interface entry he ho => ?_,
    h.pinned_step ha, fun m hm => ?_, fun m hm => ?_⟩
  · rw [hin.names, hnames, Cache.typeNames_claimName_congr _ h.names, h.names]
  · rw [hentry]
    rw [hin.entry] at he
    split at he
    · rename_i hi
      cases he
      exact ⟨⟨l.fingerprint, none⟩, by rw [hi]; exact hmade, rfl⟩
    · exact h.covered _ _ he
  · rw [hentry] at he
    have hne : interface ≠ l.interface := by
      rintro rfl
      rw [hmade] at he
      cases he
      exact ho rfl
    rw [hin.entry, if_neg hne]
    exact h.published _ _ he ho
  · rw [hclaims]
    rcases List.mem_append.mp hm with hm | hm
    · exact h.claimed m hm
    · rcases List.mem_singleton.mp hm with rfl
      exact ⟨ha.mem, hmaking.claimed⟩
  · by_cases hml : m = l
    · subst hml
      rw [hphase]
      exact ⟨by simp, by rw [hin.entry, if_pos rfl]⟩
    · obtain ⟨hne, hsame⟩ := ha.others m hm hml
      rw [hsame]
      refine (h.committed m hm).keep hne ha.keeps (fun hmem => ?_) fun _ hd => hd.append hin hnone
      rcases List.mem_append.mp hmem with hmem | hmem
      · exact hmem
      · exact absurd (List.mem_singleton.mp hmem) hml

/-- A turn that leaves entries and type names alone. -/
theorem Explained.count (h : Explained contracts s order) (ha : Advance contracts s l s')
    (change : Counters → Counters) (hcache : s'.cache = s.cache.count change)
    (hself : Committed order s'.claims l (s'.phaseOf l)) : Explained contracts s' order :=
  h.stay ha (by rw [hcache]; rfl) (fun _ _ he _ => Or.inl (by rwa [hcache] at he)) hself

/-- **The decisions explain every turn.** One case for each section: three of them decide, and of the
others only a publication shows what was decided. -/
theorem Explained.step (h : Explained contracts s order) (ht : Tallied contracts s)
    (ha : Advance contracts s l s') : ∃ order', Explained contracts s' order' := by
  have hm := ha.moves
  have hs := ha.standing l ha.mem
  have hc := h.committed l ha.mem
  have hacc := ht.accounted l ha.mem
  generalize s.phaseOf l = phase at hm hs hc hacc
  generalize hp : s'.phaseOf l = phase', hcache : s'.cache = cache', hclaims : s'.claims = claims' at hm
  cases hm with
  | look | miss | differ | find =>
    refine ⟨order, h.count ha id hcache ?_⟩
    rw [hp]
    trivial
  | pin =>
    refine ⟨order, h.stay ha ?_ (fun interface entry he ho => Or.inl ?_) ?_⟩
    · rw [hcache, Cache.typeNames_pin]
    · rw [hcache] at he
      rcases Cache.entry?_pin_eq_some _ _ he with hold | ⟨-, rfl⟩
      · exact hold
      · exact absurd rfl ho
    · rw [hp]
      trivial
  | begin ho hnone =>
    refine ⟨order, h.count ha id hcache ?_⟩
    rw [hp]
    intro hmem
    have hclaim := (h.claimed l hmem).2
    rw [Lookup.interface, hnone] at hclaim
    cases hclaim
  | refuse =>
    refine ⟨order, h.count ha _ hcache ?_⟩
    rw [hp, hclaims]
    exact fun hclaim => absurd hclaim hacc
  | giveUp e he =>
    have hout : (({} : Cache).after order).firstOutcome l = .error e := by
      rw [Cache.firstOutcome_eq_map, Cache.attempt_congr h.names, he]
      rfl
    refine ⟨order ++ [l], h.commit ha hc hs ?_ hclaims (fun _ => ?_) ?_⟩
    · rw [hp, hout]
    · rw [hcache]
    · rw [hout, hcache]
      rfl
  | synthesize i hi =>
    refine ⟨order, h.count ha id hcache ?_⟩
    rw [hp]
    exact ⟨hc, (Cache.attempt_eq_ok _ hi).2⟩
  | lose i owner hr =>
    have hout : (({} : Cache).after order).firstOutcome l =
        .error (Cache.nameTaken l.contract.name owner) := by
      rw [Cache.firstOutcome, Lookup.interface, Cache.rival?_congr _ h.names, hr]
    refine ⟨order ++ [l], h.commit ha hc.1 hs ?_ hclaims (fun _ => ?_) ?_⟩
    · rw [hp, hout]
    · rw [hcache]
    · rw [hout, hcache]
      rfl
  | win i hr =>
    have hfree : (({} : Cache).after order).rival? l.interface = none :=
      (Cache.rival?_congr _ h.names).trans hr
    have hout := Cache.firstOutcome_of_free hfree hc.2
    refine ⟨order ++ [l], h.commit ha hc.1 hs ?_ hclaims (fun _ => ?_) ?_⟩
    · rw [hp, hout]
    · rw [hcache, Cache.entry?_claimName]
    · rw [hout, hcache]
      rfl
  | publish outcome =>
    -- The outcome was decided before, so the order has the entry that now appears.
    obtain ⟨hmaking, -⟩ := hs
    have hdecided : Decided order l outcome := hc
    refine ⟨order, h.stay ha ?_ (fun interface entry he _ => ?_) ?_⟩
    · rw [hcache, Cache.typeNames_publish]
    · rw [hcache] at he
      rcases Cache.entry?_publish_eq_some _ _ he with hold | ⟨rfl, old, hold, rfl⟩
      · exact Or.inl hold
      · rw [hmaking.entry] at hold
        cases hold
        exact Or.inr hdecided.entry
    · rw [hp]
      exact hdecided
  | countMiss | countFailure =>
    refine ⟨order, h.count ha _ hcache ?_⟩
    rw [hp]
    exact fun _ => hc
  | countFailedMiss =>
    refine ⟨order, h.count ha _ hcache ?_⟩
    rw [hp]
    exact hc
  | countHit =>
    refine ⟨order, h.count ha _ hcache ?_⟩
    rw [hp, hclaims]
    exact fun hclaim => absurd hclaim hacc

/-! ## All turns -/

/-- What has been counted and decided is explained after any number of turns. -/
theorem Explained.run {is : List Nat} (hs : Sound s) (h₁ : Single contracts s)
    (ht : Tallied contracts s) (he : Explained contracts s order) (hr : s.run? is = some s') :
    Sound s' ∧ Single contracts s' ∧ Tallied contracts s' ∧ ∃ order', Explained contracts s' order' := by
  induction is generalizing s order with
  | nil =>
    cases hr
    exact ⟨hs, h₁, ht, order, he⟩
  | cons i is ih =>
    obtain ⟨t, hturn, hr⟩ := run?_cons.mp hr
    obtain ⟨w, hw, hspec⟩ := turn?_spec hturn
    obtain ⟨hs', -⟩ := hs.turn hw hspec
    obtain ⟨h₁', l, ha⟩ := h₁.turn hs hturn
    obtain ⟨order', he'⟩ := he.step ht ha
    exact ih hs' h₁' (ht.step ha) he' hr

/-- What the worker of a lookup returned, when all are over. -/
theorem Single.returned (h : Single contracts s) (hover : s.IsOver)
    (hl : l ∈ Lookup.numbered contracts) :
    ∃ outcome w, s.workers[l.caller]? = some w ∧ w.phase = .returned outcome ∧
      s.phaseOf l = .returned outcome := by
  obtain ⟨w, hw, -, hp⟩ := h.worker hl
  obtain ⟨-, outcome, ho⟩ := hover w (List.mem_of_getElem? hw)
  exact ⟨outcome, w, hw, ho, hp.trans ho⟩

/-- When all are over, each entry has an outcome, and the decisions made it. -/
theorem Explained.entries (he : Explained contracts s order) (hs : Sound s)
    (h₁ : Single contracts s) (hover : s.IsOver) (interface : String) :
    Cache.entry? (({} : Cache).after order) interface = s.cache.entry? interface := by
  cases hentry : s.cache.entry? interface with
  | none =>
    cases hserial : Cache.entry? (({} : Cache).after order) interface with
    | none => rfl
    | some entry =>
      obtain ⟨entry', he', -⟩ := he.covered _ _ hserial
      exact absurd (hentry.symm.trans he') (by simp)
  | some entry =>
    -- The lookup that made the entry has returned, and so has found an outcome there.
    obtain ⟨l, hl, rfl, hf⟩ := he.pinned _ _ hentry
    obtain ⟨outcome, w, -, -, hp⟩ := h₁.returned hover hl
    have hstanding := h₁.standing hs hl
    rw [hp] at hstanding
    obtain ⟨entry', he', hanswer⟩ := hstanding
    rcases Option.some.inj (hentry.symm.trans he') with rfl
    have hsame : entry.fingerprint = l.contract.fingerprint := hf.symm
    rw [CacheEntry.Answers, if_pos hsame] at hanswer
    exact he.published _ _ hentry (by rw [hanswer]; simp)

/-! ## The end -/

def others (contracts : List Contract) (order : List Lookup) : List Lookup :=
  (Lookup.numbered contracts).filter (· ∉ order)

theorem mem_others : l ∈ others contracts order ↔ l ∈ Lookup.numbered contracts ∧ l ∉ order := by
  simp [others]

/-- What is so when all workers are over. -/
structure Ended (contracts : List Contract) (s : SharedCache) (order : List Lookup) : Prop where
  explained : Explained contracts s order
  tallied : Tallied contracts s
  entry : ∀ interface,
    Cache.entry? (({} : Cache).after order) interface = s.cache.entry? interface
  /-- Each worker has returned the answer of an entry. -/
  answered : ∀ l ∈ Lookup.numbered contracts, ∃ outcome w entry,
    s.workers[l.caller]? = some w ∧ w.phase = .returned outcome ∧ s.phaseOf l = .returned outcome ∧
      s.cache.entry? l.interface = some entry ∧ entry.Answers l.contract outcome

theorem Explained.ended (he : Explained contracts s order) (hs : Sound s) (h₁ : Single contracts s)
    (ht : Tallied contracts s) (hover : s.IsOver) : Ended contracts s order where
  explained := he
  tallied := ht
  entry := he.entries hs h₁ hover
  answered l hl := by
    obtain ⟨outcome, w, hw, ho, hp⟩ := h₁.returned hover hl
    have hstanding := h₁.standing hs hl
    rw [hp] at hstanding
    obtain ⟨entry, hentry, hanswer⟩ := hstanding
    exact ⟨outcome, w, entry, hw, ho, hp, hentry, hanswer⟩

namespace Ended

theorem perm (h : Ended contracts s order) :
    (order ++ others contracts order).Perm (Lookup.numbered contracts) := by
  have hnodup := Lookup.nodup_numbered contracts
  refine (List.perm_ext_iff_of_nodup ?_ hnodup).mpr fun l => ?_
  · refine List.nodup_append.mpr ⟨h.explained.firsts.nodup, hnodup.filter _, ?_⟩
    rintro l hl m hm rfl
    exact (mem_others.mp hm).2 hl
  · rw [List.mem_append, mem_others]
    constructor
    · rintro (hl | hl)
      · exact (h.explained.claimed l hl).1
      · exact hl.1
    · intro hl
      by_cases hin : l ∈ order
      · exact Or.inl hin
      · exact Or.inr ⟨hl, hin⟩

/-- The lookups that have decided nothing only take answers. -/
theorem counted (h : Ended contracts s order) :
    Cache.Counted (({} : Cache).after order) (others contracts order) := by
  refine Cache.counted (Cache.settled_fresh.after order) fun l hl => ?_
  obtain ⟨_, _, entry, -, -, -, hentry, -⟩ := h.answered l (mem_others.mp hl).1
  rw [h.entry, hentry]
  simp

/-- What a lookup that decided has returned is what the order gives it. -/
theorem decided (h : Ended contracts s order) {p : Lookup × Outcome}
    (hp : p ∈ ({} : Cache).log order) : p.1 ∈ order ∧ s.phaseOf p.1 = .returned p.2 := by
  have hin : p.1 ∈ order := by
    rw [← Cache.map_fst_log {} order]
    exact List.mem_map_of_mem hp
  obtain ⟨hl, hclaim⟩ := h.explained.claimed p.1 hin
  obtain ⟨outcome, _, _, -, -, hphase, -, -⟩ := h.answered p.1 hl
  have hcommitted := h.explained.committed p.1 hl
  rw [hphase] at hcommitted
  have hentry := (hcommitted hclaim).entry
  rw [h.explained.firsts.entry p hp] at hentry
  cases hentry
  exact ⟨hin, hphase⟩

theorem undecided (h : Ended contracts s order) {p : Lookup × Outcome}
    (hp : p ∈ (({} : Cache).after order).log (others contracts order)) :
    p.1 ∈ others contracts order ∧ s.phaseOf p.1 = .returned p.2 := by
  have hin : p.1 ∈ others contracts order := by
    rw [← Cache.map_fst_log (({} : Cache).after order) (others contracts order)]
    exact List.mem_map_of_mem hp
  obtain ⟨outcome, _, entry, -, -, hphase, hentry, hanswer⟩ := h.answered _ (mem_others.mp hin).1
  obtain ⟨entry', hentry', hanswer'⟩ := h.counted.answers p hp
  rw [h.entry] at hentry'
  rcases Option.some.inj (hentry.symm.trans hentry') with rfl
  rw [hanswer'.unique hanswer]
  exact ⟨hin, hphase⟩

theorem outcome (h : Ended contracts s order) {p : Lookup × Outcome}
    (hp : p ∈ ({} : Cache).log (order ++ others contracts order)) :
    ∃ w, s.workers[p.1.caller]? = some w ∧ w.phase = .returned p.2 := by
  have hphase : p.1 ∈ Lookup.numbered contracts ∧ s.phaseOf p.1 = .returned p.2 := by
    rw [Cache.log_append] at hp
    rcases List.mem_append.mp hp with hp | hp
    · obtain ⟨hin, hphase⟩ := h.decided hp
      exact ⟨(h.explained.claimed _ hin).1, hphase⟩
    · obtain ⟨hin, hphase⟩ := h.undecided hp
      exact ⟨(mem_others.mp hin).1, hphase⟩
  obtain ⟨_, w, _, hw, ho, hreturned, -, -⟩ := h.answered _ hphase.1
  rw [hphase.2] at hreturned
  cases hreturned
  exact ⟨w, hw, ho⟩

/-- Decisions are billed as runs of synthesis, and all else as what the entries charge. -/
theorem counters (h : Ended contracts s order) :
    (({} : Cache).after (order ++ others contracts order)).counters = s.cache.counters := by
  have hruns : (({} : Cache).log order).map (fun p => Counters.ofRun p.2) =
      order.map fun l => bill s.cache s.claims l (s.phaseOf l) := by
    have hmap := congrArg (List.map fun l => bill s.cache s.claims l (s.phaseOf l))
      (Cache.map_fst_log {} order)
    rw [← hmap, List.map_map]
    refine List.map_congr_left fun p hp => ?_
    obtain ⟨hin, hphase⟩ := h.decided hp
    rw [Function.comp_apply, hphase, bill_of_claimed (h.explained.claimed _ hin).2]
  have hcharges : (others contracts order).map (({} : Cache).after order).charge =
      (others contracts order).map fun l => bill s.cache s.claims l (s.phaseOf l) := by
    refine List.map_congr_left fun l hl => ?_
    obtain ⟨hmem, hnot⟩ := mem_others.mp hl
    obtain ⟨outcome, _, _, -, -, hphase, -, -⟩ := h.answered l hmem
    have hcommitted := h.explained.committed l hmem
    rw [hphase] at hcommitted
    rw [hphase, bill_of_unclaimed fun hclaim => hnot (hcommitted hclaim).mem, Cache.charge,
      Cache.charge, h.entry]
  calc (({} : Cache).after (order ++ others contracts order)).counters
      = (({} : Cache).after order).counters +
          ((others contracts order).map (({} : Cache).after order).charge).sum := by
        rw [Cache.after_append, h.counted.counters]
    _ = (order.map fun l => bill s.cache s.claims l (s.phaseOf l)).sum +
          ((others contracts order).map fun l => bill s.cache s.claims l (s.phaseOf l)).sum := by
        rw [h.explained.firsts.counters, hruns, hcharges]
    _ = ((Lookup.numbered contracts).map fun l => bill s.cache s.claims l (s.phaseOf l)).sum := by
        rw [← List.sum_append, ← List.map_append, (h.perm.map _).sum_eq]
    _ = s.cache.counters := h.tallied.counters.symm

end Ended

/-- **Lookups at the same time are lookups in some order.** However the sections of any number of
lookups on a fresh cache follow each other, when all are over there is an order of the same lookups in
which they, one after another, come to the same: each lookup to the same outcome (a success with the
same maker, so that the same lookups share an implementation), and the cache to the same entries, type
names and counters. -/
theorem serializable (contracts : List Contract) (is : List Nat) {s : SharedCache}
    (h : (start (contracts.map fun c => (c, []))).run? is = some s) (hover : s.IsOver) :
    ∃ order : List Lookup, order.Perm (Lookup.numbered contracts) ∧
      (∀ p ∈ ({} : Cache).log order,
        ∃ w, s.workers[p.1.caller]? = some w ∧ w.phase = .returned p.2) ∧
      (∀ interface,
        Cache.entry? (({} : Cache).after order) interface = s.cache.entry? interface) ∧
      (({} : Cache).after order).typeNames = s.cache.typeNames ∧
      (({} : Cache).after order).counters = s.cache.counters := by
  obtain ⟨hs, h₁, ht, order, he⟩ := Explained.run (sound_start _) (single_start contracts)
    (tallied_start contracts) (explained_start contracts) h
  have hended := he.ended hs h₁ ht hover
  -- Those that have decided come first, and then all others in the order of their callers.
  refine ⟨order ++ others contracts order, hended.perm, fun p hp => hended.outcome hp,
    fun interface => ?_, ?_, hended.counters⟩
  · rw [Cache.after_append, hended.counted.entry, hended.entry]
  · rw [Cache.after_append, hended.counted.names, he.names]

/-- Three lookups take turns until all have synthesized, and the last to claim its type name comes too
late. -/
theorem serializable_race :
    let shop := Cache.listing "shop::IWidgets"
    let gadgets := Cache.listing "depot::IGadgets"
    let depot := Cache.listing "depot::IWidgets"
    let contracts := [shop, gadgets, depot]
    ∃ s, (start (contracts.map fun c => (c, []))).run?
        ([0, 1, 2, 0, 1, 2, 0, 1, 2, 0, 1, 2, 0, 0, 0, 1, 1, 1] ++ [2, 2, 2, 2]) = some s ∧
      s.IsOver ∧ s.outcomes.map (·.isOk) = [true, true, false] ∧
      s.cache.counters = { misses := 3, failures := 1 } ∧
      ∃ order : List Lookup, order.Perm (Lookup.numbered contracts) ∧
        (∀ p ∈ ({} : Cache).log order,
          ∃ w, s.workers[p.1.caller]? = some w ∧ w.phase = .returned p.2) ∧
        (∀ interface,
          Cache.entry? (({} : Cache).after order) interface = s.cache.entry? interface) ∧
        (({} : Cache).after order).typeNames = s.cache.typeNames ∧
        (({} : Cache).after order).counters = s.cache.counters := by
  intro shop gadgets depot contracts
  obtain ⟨i, j, k, hovertaken, hraced⟩ := run_race
  have hrun := run?_append.mpr ⟨_, hovertaken, hraced⟩
  exact ⟨_, hrun, isOver_raced, rfl, rfl, serializable contracts _ hrun isOver_raced⟩

end ClientSynth.SharedCache

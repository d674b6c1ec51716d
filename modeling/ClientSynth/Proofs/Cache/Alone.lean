import ClientSynth.Proofs.Cache.Lookups
import ClientSynth.Proofs.Cache.Moves

/-!
# `ClientSynth.Proofs.Cache.Alone` — lookups that nobody interrupts

The sections of a lookup, one after another with no turn of anybody else in between, come to what the
lookup comes to from beginning to end. So rows of whole lookups are among the runs of workers, and the
two ways to use a cache tell of the same lookups.

> `theorem run_alone … : ∃ n claims, s.run? (.replicate n i) = some ⟨(s.cache.getOrSynthesize i w.contract).2, …⟩`
-/

set_option autoImplicit false

namespace ClientSynth.SharedCache

variable {cache cache' : Cache} {claims claims' : List (String × Nat)} {i : Nat} {c : Contract}
  {phase phase' : Phase} {s : SharedCache} {w : Worker}

/-- A number of sections of the lookup of worker `i` in a row. -/
inductive Alone (i : Nat) (c : Contract) :
    Cache → List (String × Nat) → Phase → Nat → Cache → List (String × Nat) → Phase → Prop
  | nil (cache : Cache) (claims : List (String × Nat)) (phase : Phase) :
      Alone i c cache claims phase 0 cache claims phase
  | cons {cache cache₁ cache₂ : Cache} {claims claims₁ claims₂ : List (String × Nat)}
      {phase phase₁ phase₂ : Phase} {n : Nat} (h : Moves cache claims i c phase phase₁ cache₁ claims₁)
      (rest : Alone i c cache₁ claims₁ phase₁ n cache₂ claims₂ phase₂) :
      Alone i c cache claims phase (n + 1) cache₂ claims₂ phase₂

theorem turn?_move (hw : s.workers[i]? = some w)
    (h : Moves s.cache s.claims i w.contract w.phase phase cache claims) :
    s.turn? i = some ⟨cache, claims, s.workers.set i { w with phase }⟩ := by
  unfold turn?
  rw [hw]
  simp only [bind, Option.bind, moves_iff.mpr h]
  rfl

/-- Sections in a row are turns in a row. -/
theorem Alone.run {n : Nat} (h : Alone i c cache claims phase n cache' claims' phase')
    (hw : s.workers[i]? = some w) (hc : w.contract = c) (hp : w.phase = phase)
    (hcache : s.cache = cache) (hclaims : s.claims = claims) :
    s.run? (List.replicate n i) =
      some ⟨cache', claims', s.workers.set i { w with phase := phase' }⟩ := by
  induction h generalizing s w with
  | nil cache claims phase =>
    obtain ⟨hi, rfl⟩ := List.getElem?_eq_some_iff.mp hw
    subst hp hcache hclaims
    have hset : s.workers.set i { s.workers[i] with phase := s.workers[i].phase } = s.workers :=
      List.set_getElem_self hi
    rw [hset]
    rfl
  | @cons _ cache₁ _ _ claims₁ _ _ phase₁ _ _ hm rest ih =>
    subst hc hp hcache hclaims
    rw [List.replicate_succ, run?, turn?_move hw hm]
    have hi : i < s.workers.length := (List.getElem?_eq_some_iff.mp hw).1
    have hnext : (s.workers.set i { w with phase := phase₁ })[i]? = some { w with phase := phase₁ } :=
      List.getElem?_set_self hi
    have hrest := ih (s := ⟨cache₁, claims₁, _⟩) hnext rfl rfl rfl rfl
    rw [List.set_set] at hrest
    exact hrest

/-- **A lookup that nobody interrupts** comes to what it comes to as a whole. -/
theorem alone_getOrSynthesize (hs : cache.Settled)
    (hfree : cache.entry? c.name = none → claims.lookup c.name = none) :
    ∃ n claims', (∀ other, other ≠ c.name → claims'.lookup other = claims.lookup other) ∧
      Alone i c cache claims .start n (cache.getOrSynthesize i c).2 claims'
        (.returned (cache.getOrSynthesize i c).1) := by
  unfold Cache.getOrSynthesize
  rw [Cache.pinned_eq]
  cases he : cache.entry? c.name with
  | some entry =>
    have hpin : cache.pin c.name c.fingerprint = cache := by simp [Cache.pin, he]
    rw [hpin, Option.getD_some]
    by_cases hf : entry.fingerprint = c.fingerprint
    · obtain ⟨outcome, ho⟩ := Option.ne_none_iff_exists'.mp (hs _ _ he)
      have hout : cache.outcome? c.name = some outcome :=
        Cache.outcome?_eq_some_iff.mpr ⟨entry, he, ho⟩
      simp only [hf, ne_eq, not_true_eq_false, if_false, hout]
      -- A hit looks, finds and counts; a conflict differs in the two last of its three sections.
      refine ⟨3, claims, fun _ _ => rfl, .cons (.look entry he) ?_⟩
      rw [hf]
      exact .cons (.find outcome hout) (.cons (.countHit outcome) (.nil ..))
    · simp only [ne_eq, hf, not_false_eq_true, if_true]
      exact ⟨3, claims, fun _ _ => rfl,
        .cons (.look entry he) (.cons (.differ _ hf) (.cons (.refuse _) (.nil ..)))⟩
  | none =>
    -- A first lookup has seven sections, and the fourth decides what the others are.
    have hnone : (cache.pin c.name c.fingerprint).outcome? c.name = none := by
      simp [Cache.outcome?, he]
    have hpinned : cache.pinned c.name c.fingerprint = c.fingerprint := by
      rw [Cache.pinned_eq, he]
      rfl
    simp only [Option.getD_none, ne_eq, not_true_eq_false, if_false, hnone]
    have hother : ∀ other, other ≠ c.name →
        (claims ++ [(c.name, i)]).lookup other = claims.lookup other := by
      intro other ho
      have hb : (other == c.name) = false := by simpa using ho
      simp [List.lookup_append, List.lookup_cons, hb]
    have hpin : Moves cache claims i c .absent (.entered (cache.pinned c.name c.fingerprint))
        (cache.pin c.name c.fingerprint) claims := .pin
    rw [hpinned] at hpin
    unfold Cache.synthesizeAndClaim
    cases ha : (cache.pin c.name c.fingerprint).attempt c with
    | error e =>
      exact ⟨7, _, hother, .cons (.miss he) (.cons hpin (.cons (.begin hnone (hfree he))
        (.cons (.giveUp e ha) (.cons (.publish _) (.cons (.countFailedMiss e)
          (.cons (.countFailure _) (.nil ..)))))))⟩
    | ok implementation =>
      obtain ⟨hr, -⟩ := Cache.attempt_eq_ok _ ha
      simp only [Cache.claim, hr]
      exact ⟨7, _, hother, .cons (.miss he) (.cons hpin (.cons (.begin hnone (hfree he))
        (.cons (.synthesize _ ha) (.cons (.win _ hr) (.cons (.publish _)
          (.cons (.countMiss _) (.nil ..)))))))⟩

/-- A worker at the start of a lookup that gets all the turns is through with it. -/
theorem run_alone (hs : s.cache.Settled) (hw : s.workers[i]? = some w) (hp : w.phase = .start)
    (hfree : s.cache.entry? w.contract.name = none → s.claims.lookup w.contract.name = none) :
    ∃ n claims, (∀ other, other ≠ w.contract.name → claims.lookup other = s.claims.lookup other) ∧
      s.run? (List.replicate n i) = some ⟨(s.cache.getOrSynthesize i w.contract).2, claims,
        s.workers.set i { w with phase := .returned (s.cache.getOrSynthesize i w.contract).1 }⟩ := by
  obtain ⟨n, claims, hother, h⟩ := alone_getOrSynthesize (i := i) hs hfree
  exact ⟨n, claims, hother, h.run hw rfl hp rfl rfl⟩

/-! ## Workers one after another -/

/-- Workers that have their turns one after another do what the lookups do one after another. The
induction is on those that have not begun, with those that are over in front of them. -/
theorem run_workers (todo : List Contract) {cache : Cache} (hs : cache.Settled) :
    ∀ (past : List Worker) (claims : List (String × Nat)), (∀ w ∈ past, w.IsOver) →
      (∀ other, cache.entry? other = none → claims.lookup other = none) →
      ∃ is s, SharedCache.run? ⟨cache, claims, past ++ todo.map fun c => { contract := c }⟩ is = some s ∧
        s.IsOver ∧ s.cache = cache.after (Lookup.numberedFrom past.length todo) := by
  induction todo generalizing cache with
  | nil =>
    intro past claims hpast _
    refine ⟨[], _, rfl, fun w hw => hpast w ?_, rfl⟩
    simpa using hw
  | cons c todo ih =>
    intro past claims hpast hclaims
    have hw : (past ++ (c :: todo).map fun c => ({ contract := c } : Worker))[past.length]? =
        some { contract := c } := by simp
    obtain ⟨n, claims', hother, hrun⟩ :=
      run_alone (s := ⟨cache, claims, _⟩) hs hw rfl (hclaims c.name)
    have hset : (cache.lookUp ⟨past.length, c⟩).2.Settled := hs.lookUp _
    obtain ⟨is, s, hrest, hends, hcache⟩ := ih hset
      (past ++ [{ contract := c, phase := .returned (cache.lookUp ⟨past.length, c⟩).1 }]) claims'
      (fun w hmem => by
        rcases List.mem_append.mp hmem with h | h
        · exact hpast w h
        · rw [List.mem_singleton.mp h]
          exact ⟨rfl, _, rfl⟩)
      (fun other ho => by
        obtain ⟨hne, hnone⟩ := (Cache.entry?_lookUp_eq_none hs).mp ho
        rw [hother other hne]
        exact hclaims other hnone)
    refine ⟨List.replicate n past.length ++ is, s, run?_append.mpr ⟨_, hrun, ?_⟩, hends, ?_⟩
    · have hworkers (w : Worker) :
          (past ++ (c :: todo).map fun c => ({ contract := c } : Worker)).set past.length w =
            past ++ [w] ++ todo.map fun c => { contract := c } := by simp
      rw [hworkers]
      exact hrest
    · rw [hcache, List.length_append]
      rfl

/-- **Lookups one after another are a run of workers**, which comes to the same cache. -/
theorem run_serial (contracts : List Contract) :
    ∃ is s, (start (contracts.map fun c => (c, []))).run? is = some s ∧ s.IsOver ∧
      s.cache = ({} : Cache).after (Lookup.numbered contracts) := by
  obtain ⟨is, s, hrun, hover, hcache⟩ :=
    run_workers contracts Cache.settled_fresh [] [] (fun _ h => absurd h (by simp)) fun _ _ => rfl
  refine ⟨is, s, ?_, hover, hcache⟩
  rw [start, List.map_map]
  exact hrun

end ClientSynth.SharedCache

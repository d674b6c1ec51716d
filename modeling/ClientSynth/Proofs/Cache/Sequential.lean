import ClientSynth.Proofs.Cache.History
import Mathlib.Data.String.Basic

/-!
# `ClientSynth.Proofs.Cache.Sequential` — lookups one after another

What a fresh cache does over any row of lookups: the outcomes are those that `History.tell` gives, a
lookup that fails leaves the lookups of other interfaces as they would be without it, and what can be
read off the cache at the end is what the lookups say.

> `theorem lookups_follow_history (calls : List Lookup) : ({} : Cache).log calls = History.tell [] calls ∧ …`
-/

set_option autoImplicit false

namespace ClientSynth

/-- The lookups of other interfaces, with what they came to. -/
def History.others (past : History) (interface : String) : History :=
  past.filter (·.1.interface ≠ interface)

namespace Cache

/-! ## Caches that look alike -/

/-- Two caches look the same to lookups of certain interfaces, counters apart. -/
structure Alike (visible : String → Prop) (cache other : Cache) : Prop where
  entry : ∀ interface, visible interface → cache.entry? interface = other.entry? interface
  names : cache.typeNames = other.typeNames

namespace Alike

variable {visible : String → Prop} {cache other : Cache}

theorem firstOutcome_eq (h : Alike visible cache other) (l : Lookup) :
    cache.firstOutcome l = other.firstOutcome l := by
  unfold firstOutcome
  rw [rival?_congr _ h.names]

/-- **A lookup comes to the same on both**, and leaves them alike. -/
theorem lookUp (h : Alike visible cache other) (hc : cache.Settled) (ho : other.Settled)
    {l : Lookup} (hl : visible l.interface) :
    (cache.lookUp l).1 = (other.lookUp l).1 ∧
      Alike visible (cache.lookUp l).2 (other.lookUp l).2 := by
  have hentry := h.entry _ hl
  have h₁ := lookUp_spec hc l
  have h₂ := lookUp_spec ho l
  generalize (cache.lookUp l).1 = o₁, (cache.lookUp l).2 = after₁ at h₁ ⊢
  generalize (other.lookUp l).1 = o₂, (other.lookUp l).2 = after₂ at h₂ ⊢
  -- The entry is the same, so the two lookups go the same way; the other pairs are absurd.
  cases h₁ with
  | conflict entry he hf =>
    rw [hentry] at he
    cases h₂ with
    | conflict entry' he' =>
      rcases Option.some.inj (he.symm.trans he') with rfl
      exact ⟨rfl, h.entry, h.names⟩
    | hit o he' =>
      rcases Option.some.inj (he.symm.trans he') with rfl
      exact absurd rfl hf
    | first _ he' => exact absurd (he.symm.trans he') (by simp)
  | hit o he =>
    rw [hentry] at he
    cases h₂ with
    | conflict entry' he' hf' =>
      rcases Option.some.inj (he.symm.trans he') with rfl
      exact absurd rfl hf'
    | hit o' he' =>
      rcases Option.some.inj (he.symm.trans he') with ⟨⟩
      exact ⟨rfl, h.entry, h.names⟩
    | first _ he' => exact absurd (he.symm.trans he') (by simp)
  | first _ he hin =>
    rw [hentry] at he
    cases h₂ with
    | conflict entry' he' => exact absurd (he.symm.trans he') (by simp)
    | hit o' he' => exact absurd (he.symm.trans he') (by simp)
    | first _ _ hin' =>
      have hout := h.firstOutcome_eq l
      refine ⟨hout, fun interface hv => ?_, ?_⟩
      · rw [hin.entry, hin'.entry, hout, h.entry _ hv]
      · rw [hin.names, hin'.names, hout, h.names, typeNames_claimName_congr _ h.names]

/-- Rows of lookups come to the same on both. -/
theorem log_eq (h : Alike visible cache other) (hc : cache.Settled) (ho : other.Settled)
    {ls : List Lookup} (hls : ∀ l ∈ ls, visible l.interface) : cache.log ls = other.log ls := by
  induction ls generalizing cache other with
  | nil => rfl
  | cons l ls ih =>
    obtain ⟨hout, hnext⟩ := h.lookUp hc ho (hls l List.mem_cons_self)
    rw [log, log, hout]
    exact congrArg _ (ih hnext (hc.lookUp l) (ho.lookUp l) fun m hm => hls m (List.mem_cons_of_mem _ hm))

end Alike

/-! ## What a failure leaves alone -/

/-- A lookup of an interface that has an entry leaves everything but the counters. -/
theorem alike_lookUp_of_entry {cache : Cache} (h : cache.Settled) {l : Lookup}
    (he : cache.entry? l.interface ≠ none) : Alike (fun _ => True) (cache.lookUp l).2 cache := by
  have hl := lookUp_spec h l
  generalize (cache.lookUp l).1 = outcome, (cache.lookUp l).2 = after at hl ⊢
  cases hl with
  | conflict => exact ⟨fun _ _ => rfl, rfl⟩
  | hit => exact ⟨fun _ _ => rfl, rfl⟩
  | first _ hnone => exact absurd hnone he

/-- A lookup that fails can only leave an entry of its own interface. -/
theorem alike_lookUp_of_error {cache : Cache} (h : cache.Settled) {l : Lookup}
    (hfail : (cache.lookUp l).1.isOk = false) :
    Alike (· ≠ l.interface) (cache.lookUp l).2 cache ∧
      entry? (cache.lookUp l).2 l.interface ≠ none := by
  have hl := lookUp_spec h l
  generalize (cache.lookUp l).1 = outcome, (cache.lookUp l).2 = after at hl hfail ⊢
  cases hl with
  | conflict entry he => exact ⟨⟨fun _ _ => rfl, rfl⟩, by rw [entry?_count, he]; simp⟩
  | hit outcome he => exact ⟨⟨fun _ _ => rfl, rfl⟩, by rw [entry?_count, he]; simp⟩
  | first _ he hin =>
    refine ⟨⟨fun other ho => ?_, ?_⟩, ?_⟩
    · rw [hin.entry, if_neg ho]
    · rw [hin.names, hfail]
      rfl
    · rw [hin.entry, if_pos rfl]
      simp

/-- **An interface with an entry is nobody else's business.** Lookups come to what they come to on a
cache that looks the same to all other interfaces, with this interface never looked up. -/
theorem others_log {interface : String} {cache other : Cache}
    (h : Alike (· ≠ interface) cache other) (he : cache.entry? interface ≠ none)
    (hc : cache.Settled) (ho : other.Settled) (ls : List Lookup) :
    (cache.log ls).others interface = other.log (ls.filter (·.interface ≠ interface)) := by
  induction ls generalizing cache other with
  | nil => rfl
  | cons l ls ih =>
    by_cases hl : l.interface = interface
    · -- A lookup of the interface itself is left out on the one side and only counts on the other.
      subst hl
      have hsame := alike_lookUp_of_entry hc he
      have hnext : Alike (· ≠ l.interface) (cache.lookUp l).2 other :=
        ⟨fun x hx => (hsame.entry x trivial).trans (h.entry x hx), hsame.names.trans h.names⟩
      have he' : entry? (cache.lookUp l).2 l.interface ≠ none := by
        rw [hsame.entry _ trivial]
        exact he
      have := ih hnext he' (hc.lookUp l) ho
      simpa [log, History.others] using this
    · obtain ⟨hout, hnext⟩ := h.lookUp hc ho hl
      have he' : entry? (cache.lookUp l).2 interface ≠ none := by
        have hspec := lookUp_spec hc l
        generalize (cache.lookUp l).1 = outcome, (cache.lookUp l).2 = after at hspec ⊢
        cases hspec with
        | conflict => exact he
        | hit => exact he
        | first _ _ hin =>
          rw [hin.entry, if_neg fun e => hl e.symm]
          exact he
      have := ih hnext he' (hc.lookUp l) (ho.lookUp l)
      simpa [log, History.others, hl, hout] using this

/-! ## What can be read off at the end -/

theorem map_interface_log (cache : Cache) (ls : List Lookup) :
    (cache.log ls).map (·.1.interface) = ls.map (·.interface) := by
  rw [← congrArg (List.map Lookup.interface) (map_fst_log cache ls), List.map_map]
  rfl

namespace Records

variable {cache : Cache} {past : History}

/-- Implementations are there for the interfaces whose first lookups came to one. -/
theorem get?_eq_some_iff (h : Records cache past) {interface : String} {i : Implementation} :
    cache.get? interface = some i ↔
      ∃ l shared, past.first? interface = some (l, .ok shared) ∧ shared.implementation = i := by
  unfold get? outcome?
  rw [h.entry]
  cases past.first? interface with
  | none => simp
  | some p =>
    obtain ⟨l, o⟩ := p
    cases o <;> simp

theorem mem_known (h : Records cache past) (interface : String) :
    interface ∈ cache.known ↔ interface ∈ past.map (·.1.interface) := by
  rw [mem_known_iff, h.entry, Option.isSome_map, History.first?, List.find?_isSome]
  simp

/-- Two successes with one type name are of one interface. -/
theorem eq_of_typeName_eq (h : Records cache past) {p q : Lookup × Outcome} (hp : p ∈ past)
    (hq : q ∈ past) (hpok : p.2.isOk = true) (hqok : q.2.isOk = true)
    (hname : TypeName.ofInterface p.1.interface = TypeName.ofInterface q.1.interface) :
    p.1.interface = q.1.interface := by
  have h₁ := (h.owner _ _).mpr ⟨p, hp, rfl, hname, hpok⟩
  have h₂ := (h.owner _ _).mpr ⟨q, hq, rfl, rfl, hqok⟩
  exact Option.some.inj (h₁.symm.trans h₂)

end Records

theorem interfaces_perm (cache : Cache) : cache.interfaces.Perm cache.known :=
  List.mergeSort_perm _ _

/-- The interfaces are listed in ascending order, each of them once. -/
theorem interfaces_ascending {cache : Cache} (h : cache.known.Nodup) :
    cache.interfaces.Pairwise (· < ·) := by
  have hle : cache.interfaces.Pairwise fun a b => decide (a ≤ b) = true :=
    List.pairwise_mergeSort
      (fun a b c hab hbc => by
        simp only [decide_eq_true_eq] at hab hbc ⊢
        exact le_trans hab hbc)
      (fun a b => by simpa using le_total a b) _
  have hne : cache.interfaces.Pairwise (· ≠ ·) := (interfaces_perm cache).nodup_iff.mpr h
  exact (hle.and hne).imp fun hab => lt_of_le_of_ne (by simpa using hab.1) hab.2

/-- **Lookups one after another on a fresh cache.** For every row of lookups:

* what each comes to follows from the history (`History.verdict`), and no two interfaces with the same
  type name succeed;
* a lookup that fails claims no type name, and from then on the lookups of other interfaces come to
  what they come to if nobody looks its interface up; if it was not the first lookup of its interface,
  all later lookups come to the same as without it;
* there are implementations for the interfaces whose first lookups succeeded, and the interfaces are
  listed in ascending order, each once;
* the counters are the numbers of lookups, of interfaces, of interfaces that failed and of lookups with
  another contract than the first. -/
theorem lookups_follow_history (calls : List Lookup) :
    ({} : Cache).log calls = History.tell [] calls ∧
    (∀ p ∈ History.tell [] calls, ∀ q ∈ History.tell [] calls, p.2.isOk → q.2.isOk →
      TypeName.ofInterface p.1.interface = TypeName.ofInterface q.1.interface →
      p.1.interface = q.1.interface) ∧
    (∀ before l later, calls = before ++ l :: later →
      let cache := ({} : Cache).after before
      (cache.lookUp l).1.isOk = false →
      (cache.lookUp l).2.typeNames = cache.typeNames ∧
      ((cache.lookUp l).2.log later).others l.interface =
        cache.log (later.filter (·.interface ≠ l.interface)) ∧
      (l.interface ∈ before.map (·.interface) → (cache.lookUp l).2.log later = cache.log later)) ∧
    let cache := ({} : Cache).after calls
    (∀ interface i, cache.get? interface = some i ↔
      ∃ l shared, (History.tell [] calls).first? interface = some (l, .ok shared) ∧
        shared.implementation = i) ∧
    cache.interfaces.Pairwise (· < ·) ∧
    (∀ interface, interface ∈ cache.interfaces ↔ interface ∈ calls.map (·.interface)) ∧
    cache.counters.hits + cache.counters.misses + cache.counters.conflicts = calls.length ∧
    cache.counters.misses = (calls.map (·.interface)).dedup.length ∧
    cache.counters.failures = (calls.map (·.interface)).dedup.countP cache.failed ∧
    cache.counters.conflicts = (History.tell [] calls).countP (History.tell [] calls).changed := by
  obtain ⟨hlog, hrec⟩ := Records.fresh.run calls
  rw [List.nil_append] at hrec
  have hinterfaces : (History.tell [] calls).map (·.1.interface) = calls.map (·.interface) := by
    rw [← hlog, map_interface_log]
  have hknown : (({} : Cache).after calls).known.Perm (calls.map (·.interface)).dedup := by
    refine (List.perm_ext_iff_of_nodup hrec.known (List.nodup_dedup _)).mpr fun x => ?_
    rw [hrec.mem_known, List.mem_dedup, hinterfaces]
  refine ⟨hlog, fun p hp q hq hpok hqok => hrec.eq_of_typeName_eq hp hq hpok hqok, ?_,
    fun _ _ => hrec.get?_eq_some_iff, interfaces_ascending hrec.known, fun x => ?_, ?_, ?_, ?_,
    hrec.conflicts⟩
  · rintro before l later - cache hfail
    have hset : cache.Settled := settled_fresh.after before
    obtain ⟨halike, he⟩ := alike_lookUp_of_error hset hfail
    refine ⟨halike.names, others_log halike he (hset.lookUp l) hset later, fun hmem => ?_⟩
    obtain ⟨hlog', hrec'⟩ := Records.fresh.run before
    have hentry : cache.entry? l.interface ≠ none := by
      rw [Option.ne_none_iff_isSome, ← mem_known_iff, hrec'.mem_known, List.nil_append, ← hlog',
        map_interface_log]
      exact hmem
    exact (alike_lookUp_of_entry hset hentry).log_eq (hset.lookUp l) hset fun _ _ => trivial
  · rw [(interfaces_perm _).mem_iff, hrec.mem_known, hinterfaces]
  · have hlength := congrArg List.length hinterfaces
    rw [List.length_map, List.length_map] at hlength
    exact hrec.total.trans hlength
  · rw [hrec.misses, hknown.length_eq]
  · rw [hrec.failures, hknown.countP_eq]

/-- Two interfaces with one type name: the second lookup fails and claims nothing. -/
theorem lookups_follow_history_clash :
    ∃ shop depot : Lookup, (({} : Cache).log [shop, depot]).map (·.2.isOk) = [true, false] ∧
      (({} : Cache).lookUp shop).2.typeNames ≠ [] ∧
      ((({} : Cache).lookUp shop).2.lookUp depot).1.isOk = false ∧
      ((({} : Cache).lookUp shop).2.lookUp depot).2.typeNames =
        (({} : Cache).lookUp shop).2.typeNames := by
  have hclash : ∀ shop depot : Lookup,
      (History.tell [] [shop, depot]).map (·.2.isOk) = [true, false] →
      (({} : Cache).log [shop, depot]).map (·.2.isOk) = [true, false] ∧
        (({} : Cache).lookUp shop).2.typeNames ≠ [] ∧
        ((({} : Cache).lookUp shop).2.lookUp depot).1.isOk = false ∧
        ((({} : Cache).lookUp shop).2.lookUp depot).2.typeNames =
          (({} : Cache).lookUp shop).2.typeNames := by
    intro shop depot htell
    obtain ⟨hlog, -, halone, -⟩ := lookups_follow_history [shop, depot]
    rw [← hlog] at htell
    have hoks := htell
    simp only [log, List.map_cons, List.cons.injEq] at hoks
    obtain ⟨hok, hfail, -⟩ := hoks
    have hclaim := halone [shop] depot [] rfl
    simp only [after] at hclaim
    refine ⟨htell, ?_, hfail, (hclaim hfail).1⟩
    obtain ⟨hout, hin⟩ := lookUp_first settled_fresh (l := shop) rfl
    rw [hin.names, ← hout, hok]
    simp [claimName]
  exact ⟨⟨0, listing "shop::IWidgets"⟩, ⟨1, listing "depot::IWidgets"⟩,
    hclash _ _ (by decide +kernel)⟩

end Cache

end ClientSynth

import ClientSynth.Contract.Load
import ClientSynth.Proofs.Lists

/-!
# `ClientSynth.Proofs.Contract.Validity` — what is reported of a contract

`violations` goes over a contract with the names that it has met at hand. Here its report is said without
the going over. The things that can be wrong are `sites`, in the order of the contract, and what is wrong
with one of them is a `Fault`, which speaks of positions: a parameter repeats a name if there is one of
that name at some position before it.

> a contract is accepted exactly when it is well shaped, and otherwise the report has one violation for
> each site at fault, in the order of the sites (`accept_exact`).
-/

set_option autoImplicit false

namespace ClientSynth

/-! ## Well-shaped contracts -/

structure Method.IsWellShaped (m : Method) : Prop where
  name : ¬ Text.IsBlank m.name
  returns : ∀ type, m.returns = some type → ¬ Text.IsBlank type
  params : ∀ p ∈ m.params, ¬ Text.IsBlank p.name ∧ ¬ Text.IsBlank p.type
  distinct : (m.params.map (·.name)).Nodup
  route : ∀ route, m.route = some route → ¬ Text.IsBlank route.path

/-- A contract of the one version that is supported in which no text is blank, and in which the
parameters of a method have names of their own. A text is blank when trimming leaves nothing of it
(`Text.trim_eq_nil_iff`). -/
structure Contract.IsWellShaped (c : Contract) : Prop where
  version : c.version = 1
  name : ¬ Text.IsBlank c.name
  description : ∀ text, c.description = some text → ¬ Text.IsBlank text
  methods : ∀ m ∈ c.methods, m.IsWellShaped

/-! ## Sites -/

/-- Something about a method that can be wrong. Parameters are counted from 0. -/
inductive MethodSite where
  | name
  | returns
  | paramName (position : Nat)
  | paramType (position : Nat)
  | path
  deriving DecidableEq

/-- Something about a contract that can be wrong. Methods are counted from 0. -/
inductive ContractSite where
  | version
  | name
  | description
  | inMethod (position : Nat) (site : MethodSite)
  deriving DecidableEq

/-- The sites of parameters, the first of which has the position `start`. -/
def MethodSite.ofParams (start : Nat) : List Param → List MethodSite
  | [] => []
  | _ :: ps => paramName start :: paramType start :: ofParams (start + 1) ps

def Method.sites (m : Method) : List MethodSite :=
  .name :: .returns :: (MethodSite.ofParams 0 m.params ++ [.path])

/-- The sites of methods, the first of which has the position `start`. -/
def ContractSite.ofMethods (start : Nat) : List Method → List ContractSite
  | [] => []
  | m :: ms => m.sites.map (inMethod start) ++ ofMethods (start + 1) ms

/-- The sites of a contract in its order. -/
def Contract.sites (c : Contract) : List ContractSite :=
  .version :: .name :: .description :: ContractSite.ofMethods 0 c.methods

/-! ## Faults -/

/-- What is wrong at a site of a method. -/
inductive Method.Fault (m : Method) : MethodSite → MethodViolation → Prop
  | blankName (h : Text.IsBlank m.name) : Fault m .name .blankName
  | blankReturns {type : String} (hr : m.returns = some type) (h : Text.IsBlank type) :
    Fault m .returns .blankReturns
  | blankParamName {j : Nat} {p : Param} (hp : m.params[j]? = some p) (h : Text.IsBlank p.name) :
    Fault m (.paramName j) .blankParamName
  | repeatedParam {i j : Nat} {p q : Param} (hp : m.params[j]? = some p) (h : ¬ Text.IsBlank p.name)
    (hij : i < j) (hq : m.params[i]? = some q) (hname : q.name = p.name) :
    Fault m (.paramName j) (.repeatedParam p.name)
  | blankParamType {j : Nat} {p : Param} (hp : m.params[j]? = some p) (h : Text.IsBlank p.type) :
    Fault m (.paramType j) (.blankParamType p.name)
  | blankPath {route : Route} (hr : m.route = some route) (h : Text.IsBlank route.path) :
    Fault m .path .blankPath

/-- What is wrong at a site of a contract. -/
inductive Contract.Fault (c : Contract) : ContractSite → Violation → Prop
  | unsupportedVersion (h : c.version ≠ 1) : Fault c .version (.unsupportedVersion c.version)
  | blankName (h : Text.IsBlank c.name) : Fault c .name .blankName
  | blankDescription {text : String} (hd : c.description = some text) (h : Text.IsBlank text) :
    Fault c .description .blankDescription
  | inMethod {i : Nat} {m : Method} {site : MethodSite} {v : MethodViolation}
    (hm : c.methods[i]? = some m) (h : m.Fault site v) :
    Fault c (.inMethod i site) (.inMethod (i + 1) m.name v)

namespace Method

variable {m : Method} {site : MethodSite} {v w : MethodViolation}

/-- No site is at fault in two ways. -/
theorem Fault.unique (h : m.Fault site v) (h' : m.Fault site w) : v = w := by
  cases h with
  | blankParamName hp hb =>
    cases h' with
    | blankParamName => rfl
    | repeatedParam hp' hnot =>
      cases hp.symm.trans hp'
      exact absurd hb hnot
  | repeatedParam hp hnot =>
    cases h' with
    | blankParamName hp' hb =>
      cases hp.symm.trans hp'
      exact absurd hb hnot
    | repeatedParam hp' =>
      cases hp.symm.trans hp'
      rfl
  | blankParamType hp =>
    cases h' with
    | blankParamType hp' =>
      cases hp.symm.trans hp'
      rfl
  | _ => cases h'; rfl

theorem mem_ofParams {start : Nat} {ps : List Param} :
    site ∈ MethodSite.ofParams start ps ↔
      ∃ j < ps.length, site = .paramName (start + j) ∨ site = .paramType (start + j) := by
  induction ps generalizing start with
  | nil => simp [MethodSite.ofParams]
  | cons p ps ih =>
    rw [MethodSite.ofParams, List.mem_cons, List.mem_cons, ih, List.length_cons,
      Nat.exists_lt_succ_left]
    simp only [Nat.add_zero, Nat.add_assoc, Nat.add_comm 1, or_assoc]

/-- Every fault is at a site. -/
theorem Fault.mem_sites (h : m.Fault site v) : site ∈ m.sites := by
  have hparam : ∀ {j p}, m.params[j]? = some p → j < m.params.length :=
    fun hp => (List.getElem?_eq_some_iff.mp hp).1
  simp only [sites, List.mem_cons, List.mem_append, mem_ofParams, Nat.zero_add]
  cases h with
  | blankParamName hp | repeatedParam hp | blankParamType hp => simp [hparam hp]
  | _ => simp

theorem nodup_ofParams (ps : List Param) (start : Nat) : (MethodSite.ofParams start ps).Nodup := by
  induction ps generalizing start with
  | nil => exact List.nodup_nil
  | cons p ps ih =>
    rw [MethodSite.ofParams, List.nodup_cons, List.nodup_cons]
    refine ⟨fun h => ?_, fun h => ?_, ih _⟩
    · rcases List.mem_cons.mp h with h | h
      · cases h
      · obtain ⟨j, -, h | h⟩ := mem_ofParams.mp h
        · injection h
          omega
        · cases h
    · obtain ⟨j, -, h | h⟩ := mem_ofParams.mp h
      · cases h
      · injection h
        omega

theorem nodup_sites (m : Method) : m.sites.Nodup := by
  have hother : ∀ other, other ∈ MethodSite.ofParams 0 m.params →
      other ≠ .name ∧ other ≠ .returns ∧ other ≠ .path := by
    intro other h
    obtain ⟨j, -, rfl | rfl⟩ := mem_ofParams.mp h <;> simp
  refine List.nodup_cons.mpr ⟨fun h => ?_, List.nodup_cons.mpr ⟨fun h => ?_,
    nodup_snoc (nodup_ofParams _ _) fun h => (hother _ h).2.2 rfl⟩⟩
  · obtain h : MethodSite.name ∈ MethodSite.ofParams 0 m.params := by simpa using h
    exact (hother _ h).1 rfl
  · obtain h : MethodSite.returns ∈ MethodSite.ofParams 0 m.params := by simpa using h
    exact (hother _ h).2.1 rfl

/-- A method is well shaped when nothing is wrong anywhere in it. -/
theorem isWellShaped_iff : m.IsWellShaped ↔ ∀ site v, ¬ m.Fault site v := by
  constructor
  · intro h site v hf
    cases hf with
    | blankName hb => exact h.name hb
    | blankReturns hr hb => exact h.returns _ hr hb
    | blankParamName hp hb => exact (h.params _ (List.mem_of_getElem? hp)).1 hb
    | repeatedParam hp _ hij hq hname =>
      have hlt := (List.getElem?_eq_some_iff.mp hp).1
      refine List.nodup_iff_getElem?_ne_getElem?.mp h.distinct _ _ hij (by simpa using hlt) ?_
      simp [hp, hq, hname]
    | blankParamType hp hb => exact (h.params _ (List.mem_of_getElem? hp)).2 hb
    | blankPath hr hb => exact h.route _ hr hb
  · intro h
    have hparams : ∀ p ∈ m.params, ¬ Text.IsBlank p.name ∧ ¬ Text.IsBlank p.type := by
      intro p hp
      obtain ⟨j, hj⟩ := List.mem_iff_getElem?.mp hp
      exact ⟨fun hb => h _ _ (.blankParamName hj hb), fun hb => h _ _ (.blankParamType hj hb)⟩
    refine ⟨fun hb => h _ _ (.blankName hb), fun _ hr hb => h _ _ (.blankReturns hr hb), hparams,
      List.nodup_iff_getElem?_ne_getElem?.mpr fun i j hij hj heq => ?_,
      fun _ hr hb => h _ _ (.blankPath hr hb)⟩
    rw [List.length_map] at hj
    have hp : m.params[j]? = some m.params[j] := List.getElem?_eq_getElem hj
    have hq : m.params[i]? = some m.params[i] := List.getElem?_eq_getElem (Nat.lt_trans hij hj)
    have hname : m.params[i].name = m.params[j].name := by simpa [hp, hq] using heq
    exact h _ _ (.repeatedParam hp (hparams _ (List.getElem_mem hj)).1 hij hq hname)

/-! ## Reports -/

theorem fault_name_iff : m.Fault .name v ↔ v = .blankName ∧ Text.IsBlank m.name := by
  constructor
  · intro h
    cases h with
    | blankName hb => exact ⟨rfl, hb⟩
  · rintro ⟨rfl, hb⟩
    exact .blankName hb

theorem fault_returns_iff : m.Fault .returns v ↔
    v = .blankReturns ∧ ∃ type, m.returns = some type ∧ Text.IsBlank type := by
  constructor
  · intro h
    cases h with
    | blankReturns hr hb => exact ⟨rfl, _, hr, hb⟩
  · rintro ⟨rfl, _, hr, hb⟩
    exact .blankReturns hr hb

theorem fault_paramType_iff {j : Nat} {p : Param} (hp : m.params[j]? = some p) :
    m.Fault (.paramType j) v ↔ v = .blankParamType p.name ∧ Text.IsBlank p.type := by
  constructor
  · intro h
    cases h with
    | blankParamType hp' hb =>
      cases hp.symm.trans hp'
      exact ⟨rfl, hb⟩
  · rintro ⟨rfl, hb⟩
    exact .blankParamType hp hb

theorem fault_path_iff : m.Fault .path v ↔
    v = .blankPath ∧ ∃ route, m.route = some route ∧ Text.IsBlank route.path := by
  constructor
  · intro h
    cases h with
    | blankPath hr hb => exact ⟨rfl, _, hr, hb⟩
  · rintro ⟨rfl, _, hr, hb⟩
    exact .blankPath hr hb

/-- Of the name of a parameter is reported that it is blank or that it is among the names `seen` before,
which are those of the parameters before it. -/
theorem reports_paramName {before ps : List Param} {p : Param} (hparams : m.params = before ++ p :: ps)
    {seen : List String}
    (hseen : ∀ name, name ∈ seen ↔ ¬ Text.IsBlank name ∧ ∃ q ∈ before, q.name = name) :
    Reports m.Fault [.paramName before.length]
      (if Text.IsBlank p.name then [.blankParamName]
        else if p.name ∈ seen then [.repeatedParam p.name] else []) := by
  have hp : m.params[before.length]? = some p := by simp [hparams]
  by_cases hb : Text.IsBlank p.name
  · rw [if_pos hb]
    exact .one (.blankParamName hp hb) .nil
  · rw [if_neg hb]
    refine .ite fun v => ⟨fun hv => ?_, ?_⟩
    · cases hv with
      | blankParamName hp' hb' =>
        cases hp.symm.trans hp'
        exact absurd hb' hb
      | repeatedParam hp' _ hij hq hname =>
        cases hp.symm.trans hp'
        rw [hparams, List.getElem?_append_left hij] at hq
        exact ⟨rfl, (hseen _).mpr ⟨hb, _, List.mem_of_getElem? hq, hname⟩⟩
    · rintro ⟨rfl, hmem⟩
      obtain ⟨-, q, hq, hname⟩ := (hseen _).mp hmem
      obtain ⟨i, hi⟩ := List.mem_iff_getElem?.mp hq
      have hij : i < before.length := (List.getElem?_eq_some_iff.mp hi).1
      exact .repeatedParam hp hb hij (by rw [hparams, List.getElem?_append_left hij, hi]) hname

theorem reports_ofParams : ∀ {ps before : List Param} {seen : List String},
    m.params = before ++ ps →
    (∀ name, name ∈ seen ↔ ¬ Text.IsBlank name ∧ ∃ q ∈ before, q.name = name) →
    Reports m.Fault (MethodSite.ofParams before.length ps) (MethodViolation.ofParams seen ps)
  | [], _, _, _, _ => .nil
  | p :: ps, before, seen, hparams, hseen => by
    have hp : m.params[before.length]? = some p := by simp [hparams]
    have htype : Reports m.Fault [.paramType before.length]
        (if Text.IsBlank p.type then [.blankParamType p.name] else []) :=
      .ite fun _ => fault_paramType_iff hp
    -- A name that is blank is not one that a later parameter can repeat.
    have hseen' : ∀ name, name ∈ (if Text.IsBlank p.name then seen else p.name :: seen) ↔
        ¬ Text.IsBlank name ∧ ∃ q ∈ before ++ [p], q.name = name := by
      intro name
      simp only [List.mem_append, List.mem_singleton, or_and_right, exists_or, exists_eq_left]
      by_cases hb : Text.IsBlank p.name
      · rw [if_pos hb, hseen]
        refine and_congr_right fun hname => ⟨Or.inl, ?_⟩
        rintro (h | rfl)
        · exact h
        · exact absurd hb hname
      · rw [if_neg hb, List.mem_cons, hseen]
        constructor
        · rintro (rfl | ⟨hname, h⟩)
          · exact ⟨hb, Or.inr rfl⟩
          · exact ⟨hname, Or.inl h⟩
        · rintro ⟨hname, h | rfl⟩
          · exact Or.inr ⟨hname, h⟩
          · exact Or.inl rfl
    have hrest : Reports m.Fault (MethodSite.ofParams (before ++ [p]).length ps)
        (MethodViolation.ofParams (if Text.IsBlank p.name then seen else p.name :: seen) ps) :=
      reports_ofParams (by simp [hparams]) hseen'
    rw [List.length_append] at hrest
    rw [MethodViolation.ofParams, List.append_assoc]
    exact (reports_paramName hparams hseen).append (htype.append hrest)

theorem reports_ofMethod (m : Method) : Reports m.Fault m.sites (MethodViolation.ofMethod m) := by
  have hname : Reports m.Fault [.name] (if Text.IsBlank m.name then [.blankName] else []) :=
    .ite fun _ => fault_name_iff
  have hparams : Reports m.Fault (MethodSite.ofParams 0 m.params)
      (MethodViolation.ofParams [] m.params) :=
    reports_ofParams (List.nil_append _).symm (by simp)
  rw [MethodViolation.ofMethod, List.append_assoc, List.append_assoc]
  refine hname.append (.append (?_ : Reports m.Fault [.returns] _) (hparams.append ?_))
  · exact .option (fun _ => fault_returns_iff) (fun h => by rw [h]) (fun _ h => by rw [h])
  · exact .option (fun _ => fault_path_iff) (fun h => by rw [h]) (fun _ h => by rw [h])

end Method

/-! ## Contracts -/

namespace Violation

/-- The numbers of a list of messages go on from the first. -/
theorem numbered_eq (vs : List Violation) (number : Nat) :
    numbered number vs =
      vs.mapIdx fun i v => "  " ++ toString (number + i) ++ ". " ++ v.message := by
  induction vs generalizing number with
  | nil => rfl
  | cons v vs ih =>
    rw [numbered, ih, List.mapIdx_cons]
    simp only [Nat.add_zero, Nat.add_assoc, Nat.add_comm 1]

end Violation

namespace Contract

variable {c : Contract} {site : ContractSite} {v w : Violation}

/-- No site is at fault in two ways. -/
theorem Fault.unique (h : c.Fault site v) (h' : c.Fault site w) : v = w := by
  cases h with
  | inMethod hm hv =>
    cases h' with
    | inMethod hm' hw =>
      cases hm.symm.trans hm'
      rw [hv.unique hw]
  | _ => cases h'; rfl

theorem mem_ofMethods {start : Nat} {ms : List Method} :
    site ∈ ContractSite.ofMethods start ms ↔
      ∃ i m, ms[i]? = some m ∧ ∃ s ∈ m.sites, site = .inMethod (start + i) s := by
  induction ms generalizing start with
  | nil => simp [ContractSite.ofMethods]
  | cons m ms ih =>
    rw [ContractSite.ofMethods, List.mem_append, List.mem_map, ih]
    constructor
    · rintro (⟨s, hs, rfl⟩ | ⟨i, m', hm', s, hs, rfl⟩)
      · exact ⟨0, m, rfl, s, hs, rfl⟩
      · exact ⟨i + 1, m', hm', s, hs, by rw [Nat.add_assoc, Nat.add_comm 1]⟩
    · rintro ⟨i, m', hm', s, hs, rfl⟩
      cases i with
      | zero =>
        obtain rfl : m = m' := by simpa using hm'
        exact Or.inl ⟨s, hs, rfl⟩
      | succ i => exact Or.inr ⟨i, m', hm', s, hs, by rw [Nat.add_assoc, Nat.add_comm 1]⟩

/-- Every fault is at a site. -/
theorem Fault.mem_sites (h : c.Fault site v) : site ∈ c.sites := by
  rw [sites, List.mem_cons, List.mem_cons, List.mem_cons, mem_ofMethods]
  cases h with
  | inMethod hm hv => exact Or.inr (Or.inr (Or.inr ⟨_, _, hm, _, hv.mem_sites, by rw [Nat.zero_add]⟩))
  | _ => simp

theorem nodup_ofMethods (ms : List Method) (start : Nat) :
    (ContractSite.ofMethods start ms).Nodup := by
  induction ms generalizing start with
  | nil => exact List.nodup_nil
  | cons m ms ih =>
    have hmap : (m.sites.map (ContractSite.inMethod start)).Nodup :=
      m.nodup_sites.map fun _ _ h => by injection h
    refine List.nodup_append.mpr ⟨hmap, ih _, fun site hsite other hother heq => ?_⟩
    obtain ⟨s, -, rfl⟩ := List.mem_map.mp hsite
    obtain ⟨i, _, -, s', -, rfl⟩ := mem_ofMethods.mp hother
    injection heq with hposition
    omega

theorem nodup_sites (c : Contract) : c.sites.Nodup := by
  have hother : ∀ other ∈ ContractSite.ofMethods 0 c.methods,
      other ≠ .version ∧ other ≠ .name ∧ other ≠ .description := by
    intro other h
    obtain ⟨i, m, -, s, -, rfl⟩ := mem_ofMethods.mp h
    simp
  simp only [sites, List.nodup_cons, List.mem_cons, nodup_ofMethods, and_true, reduceCtorEq,
    false_or]
  exact ⟨fun h => (hother _ h).1 rfl, fun h => (hother _ h).2.1 rfl, fun h => (hother _ h).2.2 rfl⟩

/-- A contract is well shaped when nothing is wrong anywhere in it. -/
theorem isWellShaped_iff : c.IsWellShaped ↔ ∀ site v, ¬ c.Fault site v := by
  constructor
  · intro h site v hf
    cases hf with
    | unsupportedVersion hversion => exact hversion h.version
    | blankName hb => exact h.name hb
    | blankDescription hd hb => exact h.description _ hd hb
    | inMethod hm hf =>
      exact Method.isWellShaped_iff.mp (h.methods _ (List.mem_of_getElem? hm)) _ _ hf
  · intro h
    refine ⟨Decidable.byContradiction fun hversion => h _ _ (.unsupportedVersion hversion),
      fun hb => h _ _ (.blankName hb), fun _ hd hb => h _ _ (.blankDescription hd hb),
      fun m hm => Method.isWellShaped_iff.mpr fun site v hf => ?_⟩
    obtain ⟨i, hi⟩ := List.mem_iff_getElem?.mp hm
    exact h _ _ (.inMethod hi hf)

/-! ## Reports -/

theorem fault_version_iff :
    c.Fault .version v ↔ v = .unsupportedVersion c.version ∧ c.version ≠ 1 := by
  constructor
  · intro h
    cases h with
    | unsupportedVersion hversion => exact ⟨rfl, hversion⟩
  · rintro ⟨rfl, hversion⟩
    exact .unsupportedVersion hversion

theorem fault_name_iff : c.Fault .name v ↔ v = .blankName ∧ Text.IsBlank c.name := by
  constructor
  · intro h
    cases h with
    | blankName hb => exact ⟨rfl, hb⟩
  · rintro ⟨rfl, hb⟩
    exact .blankName hb

theorem fault_description_iff : c.Fault .description v ↔
    v = .blankDescription ∧ ∃ text, c.description = some text ∧ Text.IsBlank text := by
  constructor
  · intro h
    cases h with
    | blankDescription hd hb => exact ⟨rfl, _, hd, hb⟩
  · rintro ⟨rfl, _, hd, hb⟩
    exact .blankDescription hd hb

theorem fault_inMethod_iff {i : Nat} {m : Method} (hm : c.methods[i]? = some m) {s : MethodSite} :
    c.Fault (.inMethod i s) v ↔ ∃ w, m.Fault s w ∧ .inMethod (i + 1) m.name w = v := by
  constructor
  · intro h
    cases h with
    | inMethod hm' hf =>
      cases hm.symm.trans hm'
      exact ⟨_, hf, rfl⟩
  · rintro ⟨w, hf, rfl⟩
    exact .inMethod hm hf

theorem reports_ofMethods : ∀ {ms before : List Method}, c.methods = before ++ ms →
    Reports c.Fault (ContractSite.ofMethods before.length ms)
      (Violation.ofMethods (before.length + 1) ms)
  | [], _, _ => .nil
  | m :: ms, before, hmethods => by
    have hm : c.methods[before.length]? = some m := by simp [hmethods]
    have hrest : Reports c.Fault (ContractSite.ofMethods (before ++ [m]).length ms)
        (Violation.ofMethods ((before ++ [m]).length + 1) ms) :=
      reports_ofMethods (by simp [hmethods])
    rw [List.length_append] at hrest
    exact (m.reports_ofMethod.map fun _ _ => fault_inMethod_iff hm).append hrest

/-- The violations of a contract are a report on its sites. -/
theorem reports_violations (c : Contract) : Reports c.Fault c.sites c.violations := by
  have hversion : Reports c.Fault [.version]
      (if c.version = supportedVersion then [] else [.unsupportedVersion c.version]) := by
    rw [← ite_not]
    exact .ite fun _ => fault_version_iff
  have hname : Reports c.Fault [.name] (if Text.IsBlank c.name then [.blankName] else []) :=
    .ite fun _ => fault_name_iff
  have hmethods : Reports c.Fault (ContractSite.ofMethods 0 c.methods)
      (Violation.ofMethods 1 c.methods) := reports_ofMethods (List.nil_append _).symm
  rw [violations, List.append_assoc, List.append_assoc]
  refine hversion.append (hname.append (.append (?_ : Reports c.Fault [.description] _) hmethods))
  exact .option (fun _ => fault_description_iff) (fun h => by rw [h]) (fun _ h => by rw [h])

theorem violations_eq_nil_iff : c.violations = [] ↔ c.IsWellShaped := by
  rw [(reports_violations c).eq_nil_iff, isWellShaped_iff]
  exact ⟨fun h site v hf => h site hf.mem_sites v hf, fun h site _ v => h site v⟩

instance (c : Contract) : Decidable c.IsWellShaped :=
  decidable_of_iff _ violations_eq_nil_iff

/-- **A contract is accepted exactly when it is well shaped.** Otherwise the report has, in the order of
the contract and numbered from 1, what is wrong at each site at fault. Nothing is reported twice, since a
site is there once and at fault in one way, and nothing is left out, since every fault is at a site. -/
theorem accept_exact (c : Contract) :
    (c.accept = .ok c ↔ c.IsWellShaped) ∧
    (¬ c.IsWellShaped → c.accept = .error (.invalid c.violations)) ∧
    Reports c.Fault c.sites c.violations ∧ c.sites.Nodup ∧
    (∀ site v, c.Fault site v → site ∈ c.sites ∧ ∀ w, c.Fault site w → w = v) ∧
    (LoadError.invalid c.violations).chain =
      ["\n".intercalate ("Contract validation failed:" ::
        c.violations.mapIdx fun i v => "  " ++ toString (i + 1) ++ ". " ++ v.message)] := by
  have hreport : (LoadError.invalid c.violations).chain =
      ["\n".intercalate ("Contract validation failed:" ::
        c.violations.mapIdx fun i v => "  " ++ toString (i + 1) ++ ". " ++ v.message)] := by
    rw [LoadError.chain, Violation.report, Violation.numbered_eq]
    simp only [Nat.add_comm 1]
  refine ⟨?_, fun h => ?_, reports_violations c, nodup_sites c,
    fun site v hf => ⟨hf.mem_sites, fun w hw => hw.unique hf⟩, hreport⟩
  · rw [← violations_eq_nil_iff, accept]
    split <;> simp_all
  · rw [accept, if_neg (mt violations_eq_nil_iff.mp h)]

/-- A method with a mistake of every kind. -/
def misshapenMethod : Method where
  name := ""
  params := [⟨"id", "i64"⟩, ⟨"id", ""⟩, ⟨"", "i64"⟩, ⟨"id", "i64"⟩]
  returns := some " "
  route := some ⟨"", .get⟩

def misshapen : Contract where
  version := 2
  name := " "
  description := some ""
  methods := [{ name := "list" }, misshapenMethod]

theorem accept_exact_misshapen :
    misshapen.violations =
      [.unsupportedVersion 2, .blankName, .blankDescription, .inMethod 2 "" .blankName,
        .inMethod 2 "" .blankReturns, .inMethod 2 "" (.repeatedParam "id"),
        .inMethod 2 "" (.blankParamType "id"), .inMethod 2 "" .blankParamName,
        .inMethod 2 "" (.repeatedParam "id"), .inMethod 2 "" .blankPath] ∧
    ¬ misshapen.IsWellShaped ∧ misshapen.accept = .error (.invalid misshapen.violations) ∧
    misshapen.Fault (.inMethod 1 (.paramName 3)) (.inMethod 2 "" (.repeatedParam "id")) ∧
    .inMethod 1 (.paramName 3) ∈ misshapen.sites := by
  have hbad : ¬ misshapen.IsWellShaped := fun h => absurd h.version (by decide)
  have hmethod : misshapenMethod.Fault (.paramName 3) (.repeatedParam "id") :=
    .repeatedParam (i := 0) (p := ⟨"id", "i64"⟩) rfl (by decide) (by decide) rfl rfl
  have hfault : misshapen.Fault (.inMethod 1 (.paramName 3)) (.inMethod 2 "" (.repeatedParam "id")) :=
    .inMethod (i := 1) rfl hmethod
  obtain ⟨-, hreject, -, -, hsites, -⟩ := accept_exact misshapen
  exact ⟨by decide +kernel, hbad, hreject hbad, hfault, (hsites _ _ hfault).1⟩

end Contract

end ClientSynth

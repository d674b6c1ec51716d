import ClientSynth.Invocation.Frame
import ClientSynth.Proofs.Synthesis.Outcome

/-!
# `ClientSynth.Proofs.Synthesis.Positions` — placeholders of methods with many parameters

A binding holds the position of a parameter in 16 bits, and nothing limits how many parameters a method
has. A position that does not fit wraps around, to a parameter that comes before and has another name:

> the binding of a placeholder is right exactly when the parameter of its name, if there is one, is
> among the first 65536 (`synthesize_bindings`).
-/

set_option autoImplicit false

namespace ClientSynth

/-! ## Positions that wrap around -/

/-- Whether a binding gives the parameter of the name of its placeholder, and none if none has it. -/
structure Binding.IsRight (ps : List Param) (b : Binding) : Prop where
  found : b.placeholder ∈ ps.map (·.name) →
    ∃ i p, b.argument = some i ∧ ps[i.toNat]? = some p ∧ p.name = b.placeholder
  missing : b.placeholder ∉ ps.map (·.name) → b.argument = none

/-- The position of the first element that passes a test, wrapped around, is one of an element that
passes exactly when it did not wrap. -/
theorem exists_getElem?_wrapped_iff {α : Type} {p : α → Bool} {xs : List α} {i : Nat}
    (h : xs.findIdx? p = some i) :
    (∃ x, xs[i.toUInt16.toNat]? = some x ∧ p x = true) ↔ i < 65536 := by
  obtain ⟨hlt, hp, hbefore⟩ := List.findIdx?_eq_some_iff_getElem.mp h
  rw [Nat.toUInt16_eq, UInt16.toNat_ofNat']
  constructor
  · rintro ⟨x, hx, hpx⟩
    by_contra hge
    have hearlier : i % 65536 < i := by omega
    obtain ⟨_, rfl⟩ := List.getElem?_eq_some_iff.mp hx
    exact hbefore _ hearlier hpx
  · intro hsmall
    rw [Nat.mod_eq_of_lt hsmall]
    exact ⟨xs[i], List.getElem?_eq_getElem hlt, hp⟩

theorem mem_take_iff_findIdx? {xs : List String} {name : String} {i n : Nat}
    (h : xs.findIdx? (· == name) = some i) : name ∈ xs.take n ↔ i < n := by
  obtain ⟨hlt, hp, hbefore⟩ := List.findIdx?_eq_some_iff_getElem.mp h
  rw [List.mem_take_iff_getElem]
  constructor
  · rintro ⟨j, hj, hname⟩
    have hnot : ¬ j < i := fun hji => hbefore j hji (by simpa using hname)
    omega
  · intro hi
    exact ⟨i, by omega, by simpa using hp⟩

/-- The binding that is made for a placeholder is right if the parameter of its name is not too far. -/
theorem Binding.isRight_iff {ps : List Param} {name : String} :
    (Binding.mk name ((ps.findIdx? (·.name == name)).map Nat.toUInt16)).IsRight ps ↔
      (name ∈ ps.map (·.name) → name ∈ (ps.map (·.name)).take 65536) := by
  have hnames : (ps.map (·.name)).findIdx? (· == name) = ps.findIdx? (·.name == name) := by
    simp [Function.comp_def]
  cases hi : ps.findIdx? (·.name == name) with
  | none =>
    have hnot : name ∉ ps.map (·.name) := by simpa using List.findIdx?_eq_none_iff.mp hi
    exact ⟨fun _ h => absurd h hnot, fun _ => ⟨fun h => absurd h hnot, fun _ => rfl⟩⟩
  | some i =>
    obtain ⟨hlt, hp, -⟩ := List.findIdx?_eq_some_iff_getElem.mp hi
    have hmem : name ∈ ps.map (·.name) :=
      List.mem_map.mpr ⟨ps[i], List.getElem_mem hlt, by simpa using hp⟩
    rw [mem_take_iff_findIdx? (hnames.trans hi), ← exists_getElem?_wrapped_iff hi]
    constructor
    · rintro ⟨hfound, -⟩ -
      obtain ⟨_, q, hq, hget, hname⟩ := hfound hmem
      cases hq
      exact ⟨q, hget, by simpa using hname⟩
    · intro h
      obtain ⟨q, hget, hname⟩ := h hmem
      exact ⟨fun _ => ⟨_, q, rfl, hget, by simpa using hname⟩, fun hnot => absurd hmem hnot⟩

/-- A placeholder is filled with the argument at the position in its binding. -/
theorem CallContext.placeholderText_of_mem {τ : Type} (cx : CallContext τ) {bs : List Binding}
    (hnodup : (bs.map (·.placeholder)).Nodup) {b : Binding} (hb : b ∈ bs) :
    cx.placeholderText bs b.placeholder =
      b.argument.bind fun i => cx.arguments[i.toNat]?.map pathText := by
  rw [placeholderText, find?_key hnodup hb]
  rfl

/-! ## Bindings of a chain -/

namespace Method

/-- Just one frame of a method fills a path, that of its route. -/
theorem filter_wiring (interface : String) (route : Route) (bs : List Binding)
    (cl : Classification) :
    (wiring interface route bs cl).filter (·.1.kind == .buildUrl) =
      [(.buildUrl route.path bs, boundInputs bs, some FrameType.url)] := by
  obtain ⟨body, payload⟩ := cl
  cases body <;> cases payload <;> rfl

end Method

/-- The one frame of a plan that fills a path does so with a binding for each placeholder. -/
theorem Plan.IsFor.bindings {interface : String} {m : Method} {p : Plan} (hp : p.IsFor interface m) :
    ∃ f, p.chain.frames.filter (·.kind == .buildUrl) = [f] ∧
      f.op = .buildUrl p.route.path
        ((Template.placeholders p.route.path).map fun name =>
          ⟨name, (m.params.findIdx? (·.name == name)).map Nat.toUInt16⟩) := by
  obtain ⟨hargs, -, hshapes⟩ := Method.assemble_shapes hp.chain
  have hfilter := congrArg (List.filter (·.1.kind == .buildUrl)) hshapes
  rw [Method.filter_wiring, List.filter_map, List.map_eq_singleton_iff] at hfilter
  obtain ⟨f, hf, hshape⟩ := hfilter
  refine ⟨f, hf, ?_⟩
  rw [← Method.bindings_of_reads (Method.arguments_eq_ok hargs)]
  exact congrArg (·.1) hshape

namespace Contract

/-- **Which parameter fills a placeholder.** In a contract that has an implementation, every method
with a route has a plan, one frame of which fills the path of the route. It has one binding for each
placeholder, with the position of the first parameter of that name in 16 bits; calls put the argument
at this position into the address; and the binding is right exactly when the parameter of the name, if
there is one, is among the first 65536. -/
theorem synthesize_bindings {c : Contract} {impl : Implementation} (h : c.synthesize = .ok impl)
    {m : Method} (hm : m ∈ c.methods) {route : Route} (hr : m.route = some route) :
    ∃ p ∈ impl.plans, p.contract = m ∧ p.route = route ∧
      ∃ f bs, p.chain.frames.filter (·.kind == .buildUrl) = [f] ∧ f.op = .buildUrl route.path bs ∧
        bs.map (·.placeholder) = Template.placeholders route.path ∧
        (bs.map (·.placeholder)).Nodup ∧
        ∀ b ∈ bs,
          b.argument = (m.params.findIdx? (·.name == b.placeholder)).map Nat.toUInt16 ∧
          (∀ {τ : Type} (cx : CallContext τ), cx.placeholderText bs b.placeholder =
            b.argument.bind fun i => cx.arguments[i.toNat]?.map CallContext.pathText) ∧
          (b.IsRight m.params ↔
            (b.placeholder ∈ m.params.map (·.name) →
              b.placeholder ∈ (m.params.map (·.name)).take 65536)) := by
  obtain ⟨p, hp, hfor, rfl⟩ := exists_plan h hm hr
  obtain ⟨f, hf, hop⟩ := hfor.bindings
  have hplaceholders : ((Template.placeholders p.route.path).map fun name =>
      Binding.mk name ((m.params.findIdx? (·.name == name)).map Nat.toUInt16)).map (·.placeholder) =
        Template.placeholders p.route.path := by
    rw [List.map_map]
    exact List.map_id _
  have hnodup := hplaceholders.symm ▸ Template.nodup_placeholders p.route.path
  refine ⟨p, hp, hfor.contract, rfl, f, _, hf, hop, hplaceholders, hnodup, fun b hb => ?_⟩
  refine ⟨?_, fun cx => cx.placeholderText_of_mem hnodup hb, ?_⟩
  · obtain ⟨name, -, rfl⟩ := List.mem_map.mp hb
    rfl
  · obtain ⟨name, -, rfl⟩ := List.mem_map.mp hb
    exact Binding.isRight_iff

/-- Some parameters that are named by their positions. -/
def numbered (count : Nat) : List Param :=
  (List.range count).map fun i => ⟨"p" ++ toString i, "T"⟩

theorem findIdx?_numbered {i count : Nat} (h : i < count) :
    (numbered count).findIdx? (·.name == "p" ++ toString i) = some i := by
  rw [numbered, List.findIdx?_map, List.findIdx?_eq_some_iff_getElem]
  refine ⟨by simpa using h, by simp, fun j hj heq => ?_⟩
  have hname : "p" ++ toString j = "p" ++ toString i := by simpa using heq
  exact Nat.ne_of_lt hj (Scope.append_toString_inj hname)

/-- An interface whose one method has numbered parameters. -/
def numbering (count : Nat) (path : String) : Contract where
  name := "INumbers"
  methods := [{ name := "add", params := numbered count, route := some ⟨path, .get⟩ }]

theorem isSynthesizable_numbering (count : Nat) (path : String) :
    (numbering count path).IsSynthesizable where
  names := List.nodup_singleton _
  routed := ⟨_, List.mem_cons_self, rfl⟩
  methods := by
    rw [numbering, List.forall_mem_singleton]
    refine fun _ => ⟨?_, fun _ h => absurd h (by simp)⟩
    rw [numbered, List.forall_mem_map]
    have hread : (⟨"p", "T"⟩ : Param).IsReadable := by decide +kernel
    exact fun _ _ => hread

theorem synthesize_bindings_two :
    ∃ impl, (numbering 2 "/{p1}/{q}").synthesize = .ok impl ∧
      ∃ p ∈ impl.plans, ∃ f bs, p.chain.frames.filter (·.kind == .buildUrl) = [f] ∧
        f.op = .buildUrl "/{p1}/{q}" bs ∧ bs.map (·.placeholder) = ["p1", "q"] ∧
        ∀ b ∈ bs, b.IsRight (numbered 2) := by
  obtain ⟨impl, h⟩ := synthesize_isOk_iff.mpr (isSynthesizable_numbering 2 "/{p1}/{q}")
  obtain ⟨p, hp, -, -, f, bs, hf, hop, hplaceholders, -, hbs⟩ :=
    synthesize_bindings h List.mem_cons_self rfl
  refine ⟨impl, h, p, hp, f, bs, hf, hop, hplaceholders.trans (by decide +kernel), fun b hb => ?_⟩
  exact (hbs b hb).2.2.mpr fun hmem => by rwa [List.take_of_length_le (by decide)]

/-- The parameter at 65536 cannot be told from the first: the placeholder of its name has the position
of that. -/
theorem not_isRight_numbered {count : Nat} (h : 65536 < count) :
    "p65536" ∈ (numbered count).map (·.name) ∧
      ¬ (Binding.mk "p65536" (some 0)).IsRight (numbered count) := by
  have hposition : (numbered count).findIdx? (·.name == "p65536") = some 65536 := findIdx?_numbered h
  obtain ⟨hlt, hname, -⟩ := List.findIdx?_eq_some_iff_getElem.mp hposition
  have hmem : "p65536" ∈ (numbered count).map (·.name) :=
    List.mem_map.mpr ⟨_, List.getElem_mem hlt, by simpa using hname⟩
  refine ⟨hmem, fun hright => ?_⟩
  obtain ⟨i, p, hi, hp, hname⟩ := hright.found hmem
  obtain rfl : 0 = i := by simpa using hi
  have hfirst : (numbered count)[0]? = some ⟨"p0", "T"⟩ := by
    rw [numbered, List.getElem?_map, List.getElem?_range (Nat.zero_lt_of_lt h)]
    rfl
  obtain rfl : ⟨"p0", "T"⟩ = p := Option.some.inj (hfirst.symm.trans hp)
  exact absurd hname (by decide)

/-- Of 65537 parameters, the last is taken for the first. -/
theorem synthesize_bindings_wrap :
    ∃ impl, (numbering 65537 "/{p65536}").synthesize = .ok impl ∧
      "p65536" ∈ (numbered 65537).map (·.name) ∧
      ∃ p ∈ impl.plans, p.contract.params = numbered 65537 ∧
        ∃ f ∈ p.chain.frames, ∃ bs, f.op = .buildUrl "/{p65536}" bs ∧
          ⟨"p65536", some 0⟩ ∈ bs ∧ ¬ (Binding.mk "p65536" (some 0)).IsRight (numbered 65537) := by
  have hcount : 65536 < 65537 := by decide
  -- The parameters are never written out: all that is needed of their number is that it is larger.
  generalize 65537 = count at hcount
  obtain ⟨hname, hwrong⟩ := not_isRight_numbered hcount
  obtain ⟨impl, h⟩ := synthesize_isOk_iff.mpr (isSynthesizable_numbering count "/{p65536}")
  obtain ⟨p, hp, hfor, hroute⟩ := exists_plan h List.mem_cons_self rfl
  obtain ⟨f, hf, hop⟩ := hfor.bindings
  rw [hroute] at hop
  refine ⟨impl, h, hname, p, hp, by rw [hfor.contract], f, ?_, _, hop, ?_, hwrong⟩
  · exact List.mem_of_mem_filter (hf ▸ List.mem_singleton_self f)
  · refine List.mem_map.mpr ⟨"p65536", by decide +kernel, ?_⟩
    have hposition : (numbered count).findIdx? (·.name == "p65536") = some 65536 :=
      findIdx?_numbered hcount
    show Binding.mk _ (((numbered count).findIdx? _).map _) = _
    rw [hposition]
    rfl

end Contract

end ClientSynth

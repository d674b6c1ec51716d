import ClientSynth.Invocation.Frame
import ClientSynth.Proofs.Chain.Statements
import ClientSynth.Proofs.Synthesis.Wiring

/-!
# `ClientSynth.Proofs.Synthesis.SourceNames` — a chain runs as its source reads

A chain that was assembled is used twice: its frames are run, which find what they read by position,
and they are rendered, where it is found by name. Parameters may have any names, so nothing keeps one
from being named like a value of the library's own. The headline is that this does no harm:

> a line has the names of what its frame reads, and each of them stands for the parameter or for the
> frame that is read there when the frames run (`assemble_readsByName`).

It holds because a chain has no issues, so every reference stands for a variable, and because outputs
are named apart from everything before them, so nothing is ever shadowed.
-/

set_option autoImplicit false

namespace ClientSynth

/-! ## Reading by position and by name -/

/-- Where what a reference stands for comes from. -/
def Ref.origin : Ref → Origin
  | .argument i => .parameter i.toNat
  | .frame i => .line i.toNat

/-- The references in a frame: its inputs, and the arguments that a path is filled with. -/
def Frame.reads (f : Frame) : List Ref :=
  f.inputs ++
    match f.op with
    | .buildUrl _ bs => Method.boundInputs bs
    | _ => []

/-- What a name stands for in the source of a chain, before the line of the frame at `i`. -/
def Chain.originAt? (c : Chain) (i : Nat) (name : String) : Option Origin :=
  Source.origin? (c.arguments.map (·.name)) (c.render.take i) name

namespace CallContext

variable {τ : Type} (cx : CallContext τ) (slots : List (Slot τ))

/-- What a call has of an origin, after the frames that left the slots. -/
def slotOf? : Origin → Option (Slot τ)
  | .parameter i => cx.arguments[i]?.map .value
  | .line i => slots[i]?

variable {cx} {slots}

theorem slotInput_eq_ok {f : Frame} {position : Nat} {s : Slot τ}
    (h : cx.slotInput slots f position = .ok s) :
    ∃ r, f.inputs[position]? = some r ∧ cx.slotOf? slots r.origin = some s := by
  unfold slotInput at h
  split at h
  · rename_i j hr
    refine ⟨_, hr, ?_⟩
    show slots[j.toNat]? = some s
    cases hs : slots[j.toNat]? with
    | none => simp [hs] at h
    | some s' => simpa [hs] using h
  · simp at h

theorem valueInput_eq_ok {f : Frame} {position : Nat} {v : Json}
    (h : cx.valueInput slots f position = .ok v) :
    ∃ r, f.inputs[position]? = some r ∧ cx.slotOf? slots r.origin = some (.value v) := by
  unfold valueInput at h
  split at h
  · rename_i a hr
    refine ⟨_, hr, ?_⟩
    show cx.arguments[a.toNat]?.map Slot.value = some (.value v)
    cases hv : cx.arguments[a.toNat]? with
    | none => simp [hv] at h
    | some v' =>
      obtain rfl : v' = v := by simpa [hv] using h
      rfl
  · rename_i j hr
    refine ⟨_, hr, ?_⟩
    show slots[j.toNat]? = some (.value v)
    split at h
    · rename_i v' hs
      obtain rfl : v' = v := by simpa using h
      exact hs
    · simp at h
  · simp at h

theorem placeholderText_eq_some (slots : List (Slot τ)) {bs : List Binding} {placeholder text : String}
    (h : cx.placeholderText bs placeholder = some text) :
    ∃ b ∈ bs, b.placeholder = placeholder ∧ ∃ a v, b.argument = some a ∧
      cx.slotOf? slots (Ref.argument a).origin = some (.value v) ∧ pathText v = text := by
  unfold placeholderText at h
  obtain ⟨a, hb, h⟩ := Option.bind_eq_some_iff.mp h
  obtain ⟨b, hfind, ha⟩ := Option.bind_eq_some_iff.mp hb
  obtain ⟨v, hv, htext⟩ := Option.map_eq_some_iff.mp h
  refine ⟨b, List.mem_of_find?_eq_some hfind, by simpa using List.find?_some hfind, a, v, ha, ?_, htext⟩
  show cx.arguments[a.toNat]?.map Slot.value = some (.value v)
  rw [hv, Option.map_some]

end CallContext

/-! ## The names in a line -/

/-- The inputs are those that the line of an operation shows. -/
def Op.Shows : Op → List Ref → Prop
  | acquireTransport _, inputs => inputs = []
  | buildUrl _ bs, inputs => inputs = Method.boundInputs bs
  | serializeBody _, inputs => inputs.length = 1
  | buildRequest _ hasBody, inputs => inputs.length = if hasBody then 2 else 1
  | invokeTransport, inputs => inputs.length = 2
  | deserializeResponse _, inputs => inputs.length = 1
  | returnValue, inputs => inputs.length ≤ 1

namespace Frame

/-- The pairs that fill a path have the names of the arguments. -/
theorem mentions_bindings (nameOf : Ref → String) (bs : List Binding) :
    Source.Mentions ((Method.boundInputs bs).map nameOf)
      (", ".intercalate (bs.filterMap (bindingText nameOf))) := by
  have hpairs := Source.mentions_intercalate ", "
    (fun p : String × UInt16 => Source.mentions_singleton
      ("(" ++ Text.literalOf p.1 ++ ", &") (nameOf (.argument p.2)) " as &dyn Display)")
    (bs.filterMap fun b => b.argument.map (b.placeholder, ·))
  simp only [List.map_filterMap, Option.map_map] at hpairs
  simp only [Method.boundInputs, List.map_filterMap, Option.map_map]
  exact hpairs

/-- A line has the names of what its frame reads, in that order. -/
theorem mentions_render {f : Frame} (h : f.op.Shows f.inputs) (nameOf : Ref → String) :
    Source.Mentions (f.inputs.map nameOf) (f.render nameOf) := by
  obtain ⟨op, inputs, output⟩ := f
  cases op with
  | acquireTransport _ =>
    obtain rfl : inputs = [] := h
    trivial
  | buildUrl path bs =>
    obtain rfl : inputs = Method.boundInputs bs := h
    exact ((mentions_bindings nameOf bs).prepend _).extend _
  | serializeBody type =>
    obtain ⟨r, rfl⟩ := List.length_eq_one_iff.mp h
    exact Source.mentions_singleton ..
  | buildRequest verb hasBody =>
    cases hasBody with
    | false =>
      obtain ⟨r, rfl⟩ := List.length_eq_one_iff.mp h
      exact ((Source.mentions_singleton ..).extend _).extend _
    | true =>
      obtain ⟨r, r', rfl⟩ := List.length_eq_two.mp h
      exact ((Source.mentions_singleton ..).append (Source.mentions_singleton ..)).extend _
  | invokeTransport =>
    obtain ⟨r, r', rfl⟩ := List.length_eq_two.mp h
    exact (Source.mentions_singleton ..).snoc ..
  | deserializeResponse type =>
    obtain ⟨r, rfl⟩ := List.length_eq_one_iff.mp h
    exact Source.mentions_singleton ..
  | returnValue =>
    match inputs, h with
    | [], _ => trivial
    | [r], _ => exact Source.mentions_singleton ..

end Frame

/-- What the frame at `i` of a chain reads by position is what the names in its line stand for. -/
structure Chain.ReadsByName (c : Chain) (i : Nat) (f : Frame) : Prop where
  /-- The line has the names of the inputs in it, in their order. -/
  line : ∃ names text, f.inputs.map c.nameOf? = names.map some ∧ c.render[i]? = some text ∧
    Source.Mentions names text
  /-- Every reference has a name, and the name stands for what is referred to. -/
  origin : ∀ r ∈ f.reads, ∃ name, c.nameOf? r = some name ∧ c.originAt? i name = some r.origin
  /-- A slot that is read is what its name stands for. -/
  slot : ∀ {τ : Type} {cx : CallContext τ} {slots : List (Slot τ)} {position : Nat} {s : Slot τ},
    cx.slotInput slots f position = .ok s →
      ∃ r name, f.inputs[position]? = some r ∧ c.nameOf? r = some name ∧
        (c.originAt? i name).bind (cx.slotOf? slots) = some s
  /-- A value that is read is what its name stands for. -/
  value : ∀ {τ : Type} {cx : CallContext τ} {slots : List (Slot τ)} {position : Nat} {v : Json},
    cx.valueInput slots f position = .ok v →
      ∃ r name, f.inputs[position]? = some r ∧ c.nameOf? r = some name ∧
        (c.originAt? i name).bind (cx.slotOf? slots) = some (.value v)
  /-- The text for a placeholder is that of the value which the name in its pair stands for. -/
  text : ∀ {path : String} {bs : List Binding}, f.op = .buildUrl path bs →
    ∀ {τ : Type} {cx : CallContext τ} (slots : List (Slot τ)) {placeholder text : String},
      cx.placeholderText bs placeholder = some text →
        ∃ b ∈ bs, b.placeholder = placeholder ∧ ∃ a name v, b.argument = some a ∧
          c.nameOf? (.argument a) = some name ∧
          (c.originAt? i name).bind (cx.slotOf? slots) = some (.value v) ∧
          CallContext.pathText v = text

/-- It is enough that every reference has a name that stands for it, and that the line shows all inputs:
frames read nothing but what is referred to. -/
theorem Chain.ReadsByName.of_origin {c : Chain} {i : Nat} {f : Frame} (hf : c.frames[i]? = some f)
    (hshows : f.op.Shows f.inputs)
    (h : ∀ r ∈ f.reads, ∃ name, c.nameOf? r = some name ∧ c.originAt? i name = some r.origin) :
    c.ReadsByName i f where
  line := by
    refine ⟨f.inputs.map fun r => (c.nameOf? r).getD Frame.noName, _, ?_, ?_, f.mentions_render hshows _⟩
    · rw [List.map_map]
      refine List.map_congr_left fun r hr => ?_
      obtain ⟨name, hname, -⟩ := h r (List.mem_append_left _ hr)
      rw [Function.comp_apply, hname, Option.getD_some]
    · rw [Chain.render, List.getElem?_map, hf, Option.map_some]
  origin := h
  slot hs := by
    obtain ⟨r, hr, hs⟩ := CallContext.slotInput_eq_ok hs
    obtain ⟨name, hname, horigin⟩ := h r (List.mem_append_left _ (List.mem_of_getElem? hr))
    exact ⟨r, name, hr, hname, by rw [horigin, Option.bind_some, hs]⟩
  value hv := by
    obtain ⟨r, hr, hv⟩ := CallContext.valueInput_eq_ok hv
    obtain ⟨name, hname, horigin⟩ := h r (List.mem_append_left _ (List.mem_of_getElem? hr))
    exact ⟨r, name, hr, hname, by rw [horigin, Option.bind_some, hv]⟩
  text hop _ _ slots _ _ htext := by
    obtain ⟨b, hb, hplaceholder, a, v, ha, hv, htext⟩ :=
      CallContext.placeholderText_eq_some slots htext
    have hmem : .argument a ∈ f.reads := by
      refine List.mem_append_right _ ?_
      rw [hop]
      exact List.mem_filterMap.mpr ⟨b, hb, by rw [ha]; rfl⟩
    obtain ⟨name, hname, horigin⟩ := h _ hmem
    exact ⟨b, hb, hplaceholder, a, name, v, ha, hname, by rw [horigin, Option.bind_some, hv], htext⟩

/-! ## Chains that are sound and well named -/

namespace Chain

variable {c : Chain}

/-- The lines of a chain bind the names of its outputs, one after the other. -/
theorem boundNames_render (hleaves : ∀ f ∈ c.frames, f.Leaves)
    (hplain : ∀ name ∈ c.outputNames, IsPlain name) :
    c.render.filterMap Source.boundName? = c.outputNames := by
  unfold render outputNames
  rw [List.filterMap_map]
  refine List.filterMap_congr fun f hf => ?_
  refine f.boundName?_render (hleaves f hf) (fun v hv => hplain _ ?_) _
  exact List.mem_filterMap.mpr ⟨f, hf, by rw [hv]; rfl⟩

theorem exists_lookup? {i : Nat} {r : Ref} (h : r.IsAvailable c.arguments.length c.frames i) :
    ∃ v, c.lookup? r = some v := by
  cases r with
  | argument a => exact ⟨_, List.getElem?_eq_getElem h⟩
  | frame j =>
    obtain ⟨-, g, v, hg, hv⟩ := h
    exact ⟨v, by simp [lookup?, hg, hv]⟩

/-- **If no name is bound twice, a name stands for what is referred to by it.** -/
theorem originAt?_eq_some (hleaves : ∀ f ∈ c.frames, f.Leaves)
    (hplain : ∀ name ∈ c.outputNames, IsPlain name)
    (hnodup : (c.arguments.map (·.name) ++ c.outputNames).Nodup) {i : Nat} {r : Ref}
    (havailable : r.IsAvailable c.arguments.length c.frames i) {v : Variable}
    (hv : c.lookup? r = some v) : c.originAt? i v.name = some r.origin := by
  have hbound := boundNames_render hleaves hplain
  -- The lines before a frame bind some of the outputs, so what they bind is not bound twice either.
  have htake : (c.arguments.map (·.name) ++
      (c.render.take i).filterMap Source.boundName?).Nodup := by
    refine hnodup.sublist (List.Sublist.append_left ?_ _)
    rw [← hbound]
    exact (List.take_sublist i c.render).filterMap _
  refine Source.origin?_eq_some htake ?_
  cases r with
  | argument a =>
    replace hv : c.arguments[a.toNat]? = some v := hv
    exact Source.parameter_mem_namesAfter (by rw [List.getElem?_map, hv]; rfl)
  | frame j =>
    obtain ⟨hlt, g, -, hg, -⟩ := havailable
    have houtput : g.output = some v := by simpa [lookup?, hg] using hv
    have hmem : g ∈ c.frames := List.mem_of_getElem? hg
    have hline : (c.render.take i)[j.toNat]? =
        some (g.render fun r => (c.nameOf? r).getD Frame.noName) := by
      rw [List.getElem?_take_of_lt hlt, render, List.getElem?_map, hg]
      rfl
    refine Source.line_mem_namesAfter hline ?_
    rw [g.boundName?_render (hleaves g hmem) (fun w hw => hplain _ ?_), houtput]
    · rfl
    · exact List.mem_filterMap.mpr ⟨g, hmem, by rw [hw]; rfl⟩

end Chain

/-! ## Chains that were assembled -/

namespace Method

/-- In a wiring, what leaves something is what does not return, and lines show all inputs. -/
theorem of_mem_wiring {interface : String} {route : Route} {bs : List Binding} {cl : Classification}
    {shape : Op × List Ref × Option TypeExpr} (h : shape ∈ wiring interface route bs cl) :
    (shape.2.2 = none ↔ shape.1.kind = .returnValue) ∧ shape.1.Shows shape.2.1 := by
  obtain ⟨body, payload⟩ := cl
  revert shape
  cases body <;> cases payload <;>
    simp [wiring, exchange, ending, Op.kind, Op.Shows]

variable {interface : String} {m : Method} {route : Route} {cl : Classification} {c : Chain}

/-- The outputs of an assembled chain have names of their own, whatever its parameters are named. -/
theorem assemble_outputNames (h : m.assemble interface route cl = .ok c) :
    (∀ name ∈ c.outputNames, name ∉ c.arguments.map (·.name)) ∧ c.outputNames.Nodup ∧
      ∀ name ∈ c.outputNames, IsPlain name := by
  obtain ⟨-, -, hbuilt⟩ := assemble_eq_ok h
  have hwell := ChainBuilder.wellNamed_foldl_lay interface m.name c.arguments
    (wiring interface route (bindings (Scope.ofArguments c.arguments) route.path) cl)
  have hfresh := hwell.fresh
  rw [ChainBuilder.arguments_foldl_lay, hbuilt] at hfresh
  exact ⟨hfresh, hbuilt ▸ hwell.nodup, hbuilt ▸ hwell.plain⟩

theorem assemble_namedByKind (h : m.assemble interface route cl = .ok c) :
    ∀ f ∈ c.frames, f.NamedByKind := by
  obtain ⟨-, -, hbuilt⟩ := assemble_eq_ok h
  have hnamed := ChainBuilder.namedByKind_foldl_lay interface m.name c.arguments
    (wiring interface route (bindings (Scope.ofArguments c.arguments) route.path) cl)
  rw [← hbuilt]
  exact hnamed

/-- **An assembled chain runs as its source reads.** If the parameters of the method have different
names, the lines of the chain bind the names of its outputs; these differ from one another and from the
names of the parameters; and the line of a frame has the names of what the frame reads, each of which
stands for just that among the parameters and the lines before. -/
theorem assemble_readsByName (hparams : (m.params.map (·.name)).Nodup)
    (h : m.assemble interface route cl = .ok c) :
    c.arguments.map (·.name) = m.params.map (·.name) ∧
    c.render.filterMap Source.boundName? = c.outputNames ∧
    (m.params.map (·.name) ++ c.outputNames).Nodup ∧
    ∀ i f, c.frames[i]? = some f → c.ReadsByName i f := by
  obtain ⟨hargs, hissues, -⟩ := assemble_eq_ok h
  obtain ⟨-, -, hshapes⟩ := assemble_shapes h
  obtain ⟨hfresh, houtputs, hplain⟩ := assemble_outputNames h
  have hnames : c.arguments.map (·.name) = m.params.map (·.name) := names_of_reads (arguments_eq_ok hargs)
  have hshape : ∀ f ∈ c.frames, f.shape ∈ wiring interface route
      (bindings (Scope.ofArguments c.arguments) route.path) cl :=
    fun f hf => hshapes ▸ List.mem_map_of_mem hf
  have hleaves : ∀ f ∈ c.frames, f.Leaves := by
    intro f hf
    have := (of_mem_wiring (hshape f hf)).1
    rwa [Frame.shape, Option.map_eq_none_iff] at this
  have hnodup : (c.arguments.map (·.name) ++ c.outputNames).Nodup := by
    refine List.nodup_append'.mpr ⟨hnames ▸ hparams, houtputs, ?_⟩
    exact fun name hparam houtput => hfresh name houtput hparam
  refine ⟨hnames, c.boundNames_render hleaves hplain, hnames ▸ hnodup, fun i f hf => ?_⟩
  have hmem : f ∈ c.frames := List.mem_of_getElem? hf
  have hshows : f.op.Shows f.inputs := (of_mem_wiring (hshape f hmem)).2
  refine .of_origin hf hshows fun r hr => ?_
  -- What a path is filled with is among the inputs of its frame, so a chain without issues has it.
  have hinput : r ∈ f.inputs := by
    rcases List.mem_append.mp hr with hr | hr
    · exact hr
    · split at hr
      · rename_i path bs hop
        rw [hop] at hshows
        have hinputs : f.inputs = boundInputs bs := hshows
        rwa [hinputs]
      · exact absurd hr List.not_mem_nil
  have havailable := ((Issue.all_eq_nil_iff.mp hissues).2 i f hf).1 r hinput
  obtain ⟨v, hv⟩ := Chain.exists_lookup? havailable
  exact ⟨v.name, by rw [Chain.nameOf?, hv, Option.map_some],
    Chain.originAt?_eq_some hleaves hplain hnodup havailable hv⟩

/-- A method whose parameters are named like values of the library's own. -/
def searching : Method where
  name := "search"
  params := [⟨"request", "Query"⟩, ⟨"url", "String"⟩, ⟨"url1", "i64"⟩]
  returns := some "Future<Page>"
  route := some ⟨"/find/{url}/{url1}", .post⟩

theorem assemble_searching :
    ∃ c, searching.assemble "IIndex" ⟨"/find/{url}/{url1}", .post⟩
        ⟨some ⟨0, "request", .named "Query"⟩, some (.named "Page")⟩ = .ok c ∧
      c.outputNames = ["transport", "url2", "body", "request1", "response", "result"] ∧
      (searching.params.map (·.name)).Nodup ∧
      (searching.params.map (·.name) ++ c.outputNames).Nodup ∧
      ∀ i f, c.frames[i]? = some f → c.ReadsByName i f := by
  have hparams : (searching.params.map (·.name)).Nodup := by decide
  have hok : ((searching.assemble "IIndex" ⟨"/find/{url}/{url1}", .post⟩
      ⟨some ⟨0, "request", .named "Query"⟩, some (.named "Page")⟩).toOption.map Chain.outputNames) =
        some ["transport", "url2", "body", "request1", "response", "result"] := by decide +kernel
  cases h : searching.assemble "IIndex" ⟨"/find/{url}/{url1}", .post⟩
      ⟨some ⟨0, "request", .named "Query"⟩, some (.named "Page")⟩ with
  | error e => simp [h, Except.toOption] at hok
  | ok c =>
    obtain ⟨-, -, hnodup, hreads⟩ := assemble_readsByName hparams h
    exact ⟨c, rfl, by simpa [h, Except.toOption] using hok, hparams, hnodup, hreads⟩

end Method

end ClientSynth

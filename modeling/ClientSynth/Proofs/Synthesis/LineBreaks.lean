import ClientSynth.Contract.Validation
import ClientSynth.Proofs.Synthesis.Signatures
import ClientSynth.Proofs.Text.Lines

/-!
# `ClientSynth.Proofs.Synthesis.LineBreaks` — how many lines a source has

A source is written line by line, and what the contract calls things is put into the lines. Nothing
keeps a name from having a line break in it. Most of what goes into a source is safe from that: the
description is cut into its lines, the identity and the path are literals where the code uses them,
types are written from what was read, and values have names of the library's own. What is left are the
places where a text of the contract stands as it is (`Contract.IsUnbroken`):

> a source has the lines that it is meant to have exactly when none of these texts has a line break,
> and otherwise it has more (`synthesize_line_breaks`).

A valid contract may well have such a text, since only blank ones are refused
(`synthesize_breaks_path`).
-/

set_option autoImplicit false

namespace ClientSynth

open Text (IsOneLine isOneLine_append)

/-! ## Texts that stand as they are -/

/-- A parameter is shown by its name, and by its type as it is read; one that cannot be read is shown
as it is. -/
structure Param.IsUnbroken (p : Param) : Prop where
  name : IsOneLine p.name
  type : TypeExpr.ofString? p.type = none → IsOneLine p.type

structure Method.IsUnbroken (m : Method) : Prop where
  name : IsOneLine m.name
  params : ∀ p ∈ m.params, p.IsUnbroken
  path : ∀ route, m.route = some route → IsOneLine route.path

/-- No text of a contract that a source shows as it is has a line break. -/
structure Contract.IsUnbroken (c : Contract) : Prop where
  name : IsOneLine c.name
  methods : ∀ m ∈ c.methods, m.IsUnbroken

instance (p : Param) : Decidable p.IsUnbroken :=
  decidable_of_iff (IsOneLine p.name ∧ (TypeExpr.ofString? p.type = none → IsOneLine p.type))
    ⟨fun h => ⟨h.1, h.2⟩, fun h => ⟨h.name, h.type⟩⟩

instance (m : Method) : Decidable m.IsUnbroken :=
  decidable_of_iff (IsOneLine m.name ∧ (∀ p ∈ m.params, p.IsUnbroken) ∧
      ∀ route ∈ m.route, IsOneLine route.path)
    ⟨fun h => ⟨h.1, h.2.1, h.2.2⟩, fun h => ⟨h.name, h.params, h.path⟩⟩

instance (c : Contract) : Decidable c.IsUnbroken :=
  decidable_of_iff (IsOneLine c.name ∧ ∀ m ∈ c.methods, m.IsUnbroken)
    ⟨fun h => ⟨h.1, h.2⟩, fun h => ⟨h.name, h.methods⟩⟩

/-! ## Types -/

namespace TypeExpr

theorem newline_notMem_argsToChars :
    ∀ {args : List TypeExpr}, (∀ a ∈ args, '\n' ∉ a.toChars) → '\n' ∉ argsToChars args
  | [], _ => List.not_mem_nil
  | a :: args, h => by
    rw [List.forall_mem_cons] at h
    simp [argsToChars, h.1, newline_notMem_argsToChars h.2]

theorem IsWellFormed.isOneLine_display {t : TypeExpr} (h : t.IsWellFormed) : IsOneLine t.display := by
  rw [display, Text.isOneLine_ofList]
  induction h with
  | unit => decide
  | @apply n args hn hargs ih =>
    have hname : '\n' ∉ n.toList := fun hc => absurd (hn.toNat hc) (by decide)
    cases args with
    | nil => rwa [toChars]
    | cons a args =>
      rw [List.forall_mem_cons] at ih
      simp [toChars, hname, ih.1, newline_notMem_argsToChars ih.2]

end TypeExpr

/-! ## Names of the implementation -/

theorem TypeName.isOneLine_ofInterface {identity : String} (h : IsOneLine identity) :
    IsOneLine (ofInterface identity) := by
  have hsegment : '\n' ∉ Text.lastSegment identity.toList :=
    fun hc => h ((Text.lastSegment_suffix _).subset hc)
  have hsuffix : '\n' ∉ suffix.toList := by decide
  rw [ofInterface, Text.isOneLine_ofList]
  generalize Text.lastSegment identity.toList = segment at hsegment
  unfold ofSegment
  split
  · split <;> simp_all
  · simp_all

theorem Sha256.isOneLine_ofText (s : String) : IsOneLine (ofText s) := by
  rw [ofText, Text.isOneLine_ofList, List.mem_flatMap]
  rintro ⟨w, -, hc⟩
  obtain ⟨i, -, hi⟩ := List.mem_map.mp hc
  exact Nat.digitChar_ne '\n' rfl hi

theorem Contract.isOneLine_of_mem_descriptionLines {c : Contract} {line : String}
    (h : line ∈ c.descriptionLines) : IsOneLine line := by
  unfold descriptionLines at h
  cases hd : c.description with
  | none => simp [hd] at h
  | some text =>
    rw [hd] at h
    obtain ⟨cs, hcs, rfl⟩ := List.mem_map.mp h
    exact Text.isOneLine_ofList.mpr (Text.isOneLine_of_mem_lines hcs)

/-! ## Frames -/

/-- The types that a frame shows have no line break. -/
def Op.ShowsOneLine : Op → Prop
  | .serializeBody type | .deserializeResponse type => IsOneLine type.display
  | _ => True

theorem Verb.isOneLine_variant (verb : Verb) : IsOneLine verb.variant := by
  cases verb <;> decide

theorem Verb.isOneLine_word (verb : Verb) : IsOneLine verb.word := by
  cases verb <;> decide

section Render

variable {f : Frame} {nameOf : Ref → String}

theorem Frame.isOneLine_inputName (hname : ∀ r, IsOneLine (nameOf r)) (position : Nat) :
    IsOneLine (f.inputName nameOf position) := by
  unfold inputName
  split
  · exact hname _
  · decide

/-- A frame takes one line if what it shows and the names that it uses do. -/
theorem Frame.isOneLine_render (hop : f.op.ShowsOneLine) (houtput : IsOneLine f.outputName)
    (hname : ∀ r, IsOneLine (nameOf r)) : IsOneLine (f.render nameOf) := by
  have hinput := f.isOneLine_inputName hname
  unfold render
  -- Without the names, types and literals, what is left of a line is what every such line has.
  cases hf : f.op with
  | acquireTransport interface =>
    simp only [isOneLine_append, houtput, Text.isOneLine_literalOf, and_true]
    decide
  | buildUrl path bindings =>
    have hbindings : IsOneLine (", ".intercalate (bindings.filterMap (bindingText nameOf))) := by
      rw [Text.isOneLine_intercalate (by decide)]
      intro text htext
      obtain ⟨b, -, hb⟩ := List.mem_filterMap.mp htext
      obtain ⟨i, -, rfl⟩ := Option.map_eq_some_iff.mp hb
      simp only [isOneLine_append, hname, Text.isOneLine_literalOf, and_true]
      decide
    simp only [isOneLine_append, houtput, hbindings, Text.isOneLine_literalOf, and_true]
    decide
  | serializeBody type =>
    have htype : IsOneLine type.display := by simpa [hf, Op.ShowsOneLine] using hop
    simp only [isOneLine_append, houtput, hinput, htype, and_true]
    decide
  | buildRequest verb hasBody =>
    have hbody : IsOneLine
        (if hasBody then ".with_json_body(" ++ f.inputName nameOf 1 ++ ")" else "") := by
      split
      · simp only [isOneLine_append, hinput, and_true]
        decide
      · decide
    simp only [isOneLine_append, houtput, hinput, hbody, verb.isOneLine_variant, and_true]
    decide
  | invokeTransport =>
    simp only [isOneLine_append, houtput, hinput, and_true]
    decide
  | deserializeResponse type =>
    have htype : IsOneLine type.display := by simpa [hf, Op.ShowsOneLine] using hop
    simp only [isOneLine_append, houtput, hinput, htype, and_true]
    decide
  | returnValue =>
    cases f.inputs with
    | nil => exact (by decide : IsOneLine "Ok(())")
    | cons r _ =>
      simp only [isOneLine_append, hname, and_true]
      decide

end Render

theorem Method.sentAs?_isWellFormed {m : Method} {path : String} {type : TypeExpr}
    (h : m.sentAs? path = some type) : type.IsWellFormed := by
  unfold sentAs? at h
  split at h
  · cases h
  · split at h
    · cases h
    · exact TypeExpr.isWellFormed_of_ofString? h

namespace Plan

variable {interface : String} {m : Method} {p : Plan}

/-- The types in the frames of a plan were read. -/
theorem IsFor.showsOneLine (h : p.IsFor interface m) : ∀ f ∈ p.chain.frames, f.op.ShowsOneLine := by
  obtain ⟨-, -, hshapes⟩ := Method.assemble_shapes h.chain
  obtain ⟨hbody, -⟩ := Classification.ofMethod_eq_ok h.classification
  have hsent : ∀ q, p.classification.body = some q → IsOneLine q.type.display := by
    intro q hq
    rcases Classification.bodyOf_eq_ok hbody with ⟨hnone, -⟩ | ⟨first, rest, type, hps, hsome, hsent⟩
    · exact nomatch hnone.symm.trans hq
    · obtain rfl := Option.some.inj (hsome.symm.trans hq)
      exact (Method.sentAs?_isWellFormed hsent).isOneLine_display
  have hpromised : ∀ type, p.classification.payload = some type → IsOneLine type.display :=
    fun type htype =>
      (Method.promised?_isWellFormed (h.promised?_eq.trans htype)).1.isOneLine_display
  have hwiring : ∀ shape ∈ p.chain.frames.map Frame.shape, shape.1.ShowsOneLine := by
    rw [hshapes]
    -- Only a body and a payload bring types into a wiring, so the wiring is taken in its four forms.
    generalize p.classification = cl at hsent hpromised
    obtain ⟨body, payload⟩ := cl
    cases body <;> cases payload <;>
      simp_all [Method.wiring, Method.exchange, Method.ending, Op.ShowsOneLine]
  exact fun f hf => hwiring _ (List.mem_map_of_mem hf)

theorem IsFor.isOneLine_outputName (h : p.IsFor interface m) {f : Frame} (hf : f ∈ p.chain.frames) :
    IsOneLine f.outputName := by
  unfold Frame.outputName
  split
  · rename_i v hv
    exact fun hc =>
      absurd ((Method.assemble_namedByKind h.chain f hf).isAlphanum hv _ hc) (by decide)
  · decide

theorem IsFor.isOneLine_nameOf (h : p.IsFor interface m) (hparams : ∀ q ∈ m.params, q.IsUnbroken)
    (r : Ref) : IsOneLine ((p.chain.nameOf? r).getD Frame.noName) := by
  unfold Chain.nameOf?
  cases hv : p.chain.lookup? r with
  | none => decide
  | some v =>
    rw [Option.map_some, Option.getD_some]
    cases r with
    | argument i =>
      have hnames := Method.names_of_reads
        (Method.arguments_eq_ok (Method.assemble_shapes h.chain).1)
      have hmem : v.name ∈ m.params.map (·.name) :=
        hnames ▸ List.mem_map_of_mem (List.mem_of_getElem? hv)
      obtain ⟨q, hq, hname⟩ := List.mem_map.mp hmem
      exact hname ▸ (hparams q hq).name
    | frame i =>
      obtain ⟨f, hf, hv⟩ := Option.bind_eq_some_iff.mp hv
      have hline := h.isOneLine_outputName (List.mem_of_getElem? hf)
      rwa [Frame.outputName, hv] at hline

/-- Every line of a body is one. -/
theorem IsFor.isOneLine_of_mem_render (h : p.IsFor interface m)
    (hparams : ∀ q ∈ m.params, q.IsUnbroken) : ∀ line ∈ p.chain.render, IsOneLine line := by
  intro line hline
  obtain ⟨f, hf, rfl⟩ := List.mem_map.mp hline
  exact f.isOneLine_render (h.showsOneLine f hf) (h.isOneLine_outputName hf) (h.isOneLine_nameOf hparams)

end Plan

/-! ## Methods -/

theorem Param.isOneLine_iff {p : Param} : IsOneLine (Source.param p) ↔ p.IsUnbroken := by
  have hcolon : IsOneLine ": " := by decide
  unfold Source.param
  rw [isOneLine_append, isOneLine_append, and_iff_left hcolon]
  cases ht : TypeExpr.ofString? p.type with
  | none => exact ⟨fun h => ⟨h.1, fun _ => h.2⟩, fun h => ⟨h.name, h.type ht⟩⟩
  | some t =>
    have hline := (TypeExpr.isWellFormed_of_ofString? ht).isOneLine_display
    exact ⟨fun h => ⟨h.1, fun hnone => nomatch hnone.symm.trans ht⟩, fun h => ⟨h.name, hline⟩⟩

theorem Source.isOneLine_result (m : Method) : IsOneLine (result m.returns) := by
  rw [result_eq]
  cases h : m.promised? with
  | none => decide
  | some t => exact (Method.promised?_isWellFormed h).1.isOneLine_display

theorem Source.isOneLine_signature_iff {m : Method} :
    IsOneLine (signature m) ↔ IsOneLine m.name ∧ ∀ p ∈ m.params, p.IsUnbroken := by
  have hself : IsOneLine "&self" := by decide
  have hcommas : IsOneLine (", ".intercalate ("&self" :: m.params.map param)) ↔
      ∀ p ∈ m.params, p.IsUnbroken := by
    rw [Text.isOneLine_intercalate (by decide), List.forall_mem_cons, and_iff_right hself,
      List.forall_mem_map]
    exact forall₂_congr fun p _ => Param.isOneLine_iff
  unfold signature
  simp only [isOneLine_append, hcommas, isOneLine_result, and_true]
  constructor
  · rintro ⟨⟨⟨⟨⟨-, hname⟩, -⟩, hparams⟩, -⟩, -⟩
    exact ⟨hname, hparams⟩
  · rintro ⟨hname, hparams⟩
    exact ⟨⟨⟨⟨⟨by decide, hname⟩, by decide⟩, hparams⟩, by decide⟩, by decide⟩

/-- The lines of a method are lines if and only if none of its texts has a line break. -/
theorem Implementation.IsBlock.isOneLine_iff {impl : Implementation} {m : Method}
    {block : List String} (h : impl.IsBlock m block) :
    (∀ line ∈ block, IsOneLine line) ↔ m.IsUnbroken := by
  cases h with
  | unrouted hr =>
    rw [List.forall_mem_singleton, isOneLine_append, Source.isOneLine_signature_iff]
    constructor
    · rintro ⟨-, hname, hparams⟩
      exact ⟨hname, hparams, fun route hroute => nomatch hr.symm.trans hroute⟩
    · exact fun h => ⟨by decide, h.name, h.params⟩
  | @routed p _ hfor =>
    have hpath : (∀ route, m.route = some route → IsOneLine route.path) ↔ IsOneLine p.route.path := by
      simp [hfor.route]
    have hcomment : IsOneLine ("    // " ++ p.route.verb.word ++ " " ++ p.route.path) ↔
        IsOneLine p.route.path := by
      simp only [isOneLine_append, p.route.verb.isOneLine_word, and_true]
      exact and_iff_right (by decide)
    have hsignature : IsOneLine ("    " ++ Source.signature m ++ " \x7b") ↔
        IsOneLine (Source.signature m) := by
      rw [isOneLine_append, isOneLine_append, and_iff_left (by decide), and_iff_right (by decide)]
    simp only [List.forall_mem_append, List.forall_mem_cons, hcomment, hsignature,
      Source.isOneLine_signature_iff]
    constructor
    · rintro ⟨⟨⟨hline, ⟨hname, hparams⟩, -⟩, -⟩, -⟩
      exact ⟨hname, hparams, hpath.mpr hline⟩
    · intro h
      have hbody : ∀ line ∈ p.chain.render.map ("        " ++ ·), IsOneLine line := by
        simp only [List.forall_mem_map, isOneLine_append]
        exact fun line hline => ⟨by decide, hfor.isOneLine_of_mem_render h.params line hline⟩
      exact ⟨⟨⟨hpath.mp h.path, ⟨h.name, h.params⟩, by simp⟩, hbody⟩, by decide, by simp⟩

/-- How many lines a method is meant to have: one without a route, and with one three more than its
chain has frames. -/
def Implementation.blockLength (impl : Implementation) (m : Method) : Nat :=
  if m.isRouted then 3 + ((impl.plan? m.name).map (·.chain.frames.length)).getD 0 else 1

/-- How many lines a source is meant to have. -/
def Implementation.lineCount (impl : Implementation) (c : Contract) : Nat :=
  11 + c.descriptionLines.length + c.methods.length + total impl.blockLength c.methods

/-! ## Sources -/

namespace Source

theorem length_methodLines {c : Contract} {impl : Implementation} (h : c.synthesize = .ok impl)
    {m : Method} (hm : m ∈ c.methods) :
    (methodLines impl.plans m).length = impl.blockLength m := by
  unfold Implementation.blockLength
  rcases Contract.plan?_of_mem h hm with ⟨hr, hp⟩ | ⟨p, hfor, hp⟩
  · rw [methodLines_of_none hp]
    simp [Method.isRouted, hr]
  · rw [methodLines_of_some hp]
    simp [hp, Method.isRouted, hfor.route, planLines, Chain.render]
    omega

theorem length_spaced : ∀ {groups : List (List String)}, groups ≠ [] →
    (spaced groups).length + 1 = total List.length groups + groups.length
  | [g], _ => rfl
  | g :: g' :: groups, _ => by
    have ih := length_spaced (List.cons_ne_nil g' groups)
    rw [spaced, List.length_append, List.length_cons, total, List.length_cons]
    · omega
    · simp

theorem length_lines {c : Contract} {impl : Implementation} (h : c.synthesize = .ok impl) :
    (header c (TypeName.ofInterface c.name) c.fingerprint ++
      spaced (c.methods.map (methodLines impl.plans)) ++ ["\x7d"]).length = impl.lineCount c := by
  obtain ⟨m, hm, -⟩ := (Contract.synthesize_isOk_iff.mp ⟨impl, h⟩).routed
  have hspaced := length_spaced (List.ne_nil_of_mem
    (List.mem_map_of_mem (f := methodLines impl.plans) hm))
  have hblocks : total List.length (c.methods.map (methodLines impl.plans)) =
      total impl.blockLength c.methods :=
    total_map fun m hm => length_methodLines h hm
  rw [hblocks, List.length_map] at hspaced
  -- There is an empty line less than there are methods, and the closing line makes up for it.
  simp only [header_eq, List.length_append, List.length_cons, List.length_nil, List.length_map,
    Implementation.lineCount]
  omega

theorem forall_mem_spaced {P : String → Prop} (hempty : P "") :
    ∀ {groups : List (List String)},
      (∀ line ∈ spaced groups, P line) ↔ ∀ g ∈ groups, ∀ line ∈ g, P line
  | [] => by simp [spaced]
  | [g] => by simp [spaced]
  | g :: g' :: groups => by
    rw [spaced, List.forall_mem_append, List.forall_mem_cons, and_iff_right hempty,
      forall_mem_spaced hempty, List.forall_mem_cons (a := g)]
    simp

/-- Every line ends with a line break, and may have others. -/
theorem count_text (lines : List String) :
    (text lines).toList.count '\n' = lines.length + total (·.toList.count '\n') lines := by
  rw [text, String.toList_join, List.flatMap_map]
  induction lines with
  | nil => rfl
  | cons line lines ih =>
    rw [List.flatMap_cons, List.count_append, ih, total, List.length_cons, String.toList_append,
      List.count_append]
    show _ + 1 + _ = _
    omega

theorem isOneLine_header_iff {c : Contract} :
    (∀ line ∈ header c (TypeName.ofInterface c.name) c.fingerprint, IsOneLine line) ↔
      IsOneLine c.name := by
  have hfingerprint : IsOneLine c.fingerprint := Sha256.isOneLine_ofText _
  rw [header_eq]
  simp only [List.forall_mem_append, List.forall_mem_cons, List.forall_mem_map, isOneLine_append]
  constructor
  · rintro ⟨⟨⟨-, ⟨-, hname⟩, -⟩, -⟩, -⟩
    exact hname
  · intro hname
    have htype := TypeName.isOneLine_ofInterface hname
    have hshort : IsOneLine c.shortName := Text.isOneLine_shortName hname
    have hdescription : ∀ line ∈ c.descriptionLines, IsOneLine "/// " ∧ IsOneLine line :=
      fun line hline => ⟨by decide, c.isOneLine_of_mem_descriptionLines hline⟩
    simp only [hname, htype, hshort, hfingerprint, and_iff_left hdescription, and_true,
      List.not_mem_nil, false_implies, implies_true]
    decide

end Source

namespace Contract

variable {c : Contract} {impl : Implementation}

/-- What a source has besides the lines that it is meant to have comes from texts with line breaks. -/
theorem count_source (h : c.synthesize = .ok impl) :
    ∃ breaks, impl.source.toList.count '\n' = impl.lineCount c + breaks ∧
      (breaks = 0 ↔ c.IsUnbroken) := by
  refine ⟨_, by rw [synthesize_emit h, Source.emit, Source.count_text, Source.length_lines h], ?_⟩
  -- The rest is what the lines have in them: nothing if and only if each of them is one.
  have hmethods : (∀ g ∈ c.methods.map (Source.methodLines impl.plans), ∀ line ∈ g,
      IsOneLine line) ↔ ∀ m ∈ c.methods, m.IsUnbroken := by
    rw [List.forall_mem_map]
    exact forall₂_congr fun m hm => (Source.isBlock_methodLines h hm).isOneLine_iff
  have hlines : (∀ line ∈ Source.header c (TypeName.ofInterface c.name) c.fingerprint ++
      Source.spaced (c.methods.map (Source.methodLines impl.plans)) ++ ["\x7d"], IsOneLine line) ↔
        c.IsUnbroken := by
    rw [List.forall_mem_append, List.forall_mem_append, Source.isOneLine_header_iff,
      Source.forall_mem_spaced (by decide), hmethods, List.forall_mem_singleton,
      and_iff_left (by decide)]
    exact ⟨fun h => ⟨h.1, h.2⟩, fun h => ⟨h.name, h.methods⟩⟩
  rw [← hlines, total_eq_zero_iff]
  exact forall₂_congr fun line _ => List.count_eq_zero

/-- The length of a block can be told from the method alone. -/
theorem blockLength_of_routed (h : c.synthesize = .ok impl) {m : Method} (hm : m ∈ c.methods)
    {route : Route} (hr : m.route = some route) {n : Nat}
    (hn : (Plan.ofMethod c.name m route).map (·.chain.frames.length) = .ok n) :
    impl.blockLength m = 3 + n := by
  rcases plan?_of_mem h hm with ⟨hnone, -⟩ | ⟨p, hfor, hp⟩
  · exact nomatch hnone.symm.trans hr
  · simp [Implementation.blockLength, hp, Method.isRouted, hr, hfor.eq_of_map hr hn]

/-- **Only names, paths and types that cannot be read can break a line.** In the source of a contract,
eleven lines stand around the blocks of the methods, and there is one for each line of the description,
one for each method, and those of the blocks. There are never fewer line breaks than these lines have,
and there are more exactly when some text that is shown as it is has one: the identity, the name of a
method or of a parameter, the path of a route, or the type of a parameter if it cannot be read. -/
theorem synthesize_line_breaks (h : c.synthesize = .ok impl) :
    impl.lineCount c ≤ impl.source.toList.count '\n' ∧
    (impl.source.toList.count '\n' = impl.lineCount c ↔ c.IsUnbroken) := by
  obtain ⟨breaks, hcount, hbreaks⟩ := count_source h
  rw [hcount, ← hbreaks]
  omega

theorem synthesize_line_breaks_drafting :
    ∃ impl, drafting.synthesize = .ok impl ∧ drafting.IsUnbroken ∧
      impl.source.toList.count '\n' = 25 := by
  obtain ⟨impl, h⟩ : ∃ impl, drafting.synthesize = .ok impl :=
    synthesize_isOk_iff.mpr (by decide +kernel)
  have hunbroken : drafting.IsUnbroken := by decide +kernel
  refine ⟨impl, h, hunbroken, ((synthesize_line_breaks h).2.mpr hunbroken).trans ?_⟩
  have hlist := blockLength_of_routed h (List.mem_cons_of_mem _ List.mem_cons_self) rfl (n := 6)
    (by decide +kernel)
  have hdescription : drafting.descriptionLines.length = 2 := by decide +kernel
  unfold Implementation.lineCount
  rw [hdescription]
  show 11 + 2 + 2 + (1 + (impl.blockLength _ + 0)) = 25
  rw [hlist]

/-- A path with a line break in it, and what could be code after that. -/
def breaking : Contract where
  name := "IWidgets"
  methods := [{ name := "clear", route := some ⟨"/widgets\nuse other::*;", .delete⟩ }]

theorem synthesize_breaks_path :
    breaking.IsValid ∧ ∃ impl, breaking.synthesize = .ok impl ∧
      impl.lineCount breaking = 20 ∧ 20 < impl.source.toList.count '\n' := by
  obtain ⟨impl, h⟩ : ∃ impl, breaking.synthesize = .ok impl :=
    synthesize_isOk_iff.mpr (by decide +kernel)
  obtain ⟨breaks, hcount, hbreaks⟩ := count_source h
  have hbroken : ¬ breaking.IsUnbroken := by decide +kernel
  have hclear := blockLength_of_routed h List.mem_cons_self rfl (n := 5) (by decide +kernel)
  have hlines : impl.lineCount breaking = 20 := by
    show 11 + 0 + 1 + (impl.blockLength _ + 0) = 20
    rw [hclear]
  refine ⟨by decide +kernel, impl, h, hlines, ?_⟩
  rw [← hbreaks] at hbroken
  omega

end Contract

end ClientSynth

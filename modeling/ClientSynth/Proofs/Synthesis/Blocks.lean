import ClientSynth.Proofs.Digest.Sha256
import ClientSynth.Proofs.Synthesis.Outcome

/-!
# `ClientSynth.Proofs.Synthesis.Blocks` — a source, method by method

Source is written by going over the methods of a contract, and the plan of a method is looked up by its
name: nothing but a search that fails says that a method has none. The plans are in a list of their
own, which is shorter. That the right ones come together is what `plan?_of_mem` says:

> a name finds the plan that was made of the method of that name, and it finds none if the method has
> no route.

With it a source is the blocks of the methods (`Implementation.IsBlock`) in order, and what stands
around them, line by line and each with its line break (`synthesize_source`).
-/

set_option autoImplicit false

namespace ClientSynth

/-! ## Plans by name -/

namespace Contract

variable {c : Contract} {impl : Implementation} {m : Method}

theorem nodup_names (h : c.synthesize = .ok impl) : (c.methods.map (·.name)).Nodup :=
  (synthesize_isOk_iff.mp ⟨impl, h⟩).names

/-- **The plan that the name of a method finds is its own**, and it finds none if the method has no
route. -/
theorem plan?_of_mem (h : c.synthesize = .ok impl) (hm : m ∈ c.methods) :
    (m.route = none ∧ impl.plan? m.name = none) ∨
      ∃ p, p.IsFor c.name m ∧ impl.plan? m.name = some p := by
  have hname : ∀ (m' : Method) (p : Plan), p.IsFor c.name m' →
      (m'.name == m.name) = (p.name == m.name) :=
    fun m' p hp => by rw [Plan.name, hp.contract]
  rcases find?_forall₂ hname (synthesize_eq_ok h).2 with ⟨hnone, hp⟩ | ⟨m', p, hsome, hp, hfor⟩
  · refine Or.inl ⟨?_, hp⟩
    -- A method with a route is one of those that are looked through, and has its own name.
    cases hr : m.route with
    | none => rfl
    | some route =>
      have hrouted : m ∈ c.routed := List.mem_filter.mpr ⟨hm, by rw [Method.isRouted, hr]; rfl⟩
      exact absurd (beq_self_eq_true _) (List.find?_eq_none.mp hnone m hrouted)
  · have hm' : m' ∈ c.methods := (List.mem_filter.mp (List.mem_of_find?_eq_some hsome)).1
    obtain rfl : m' = m :=
      List.inj_on_of_nodup_map (nodup_names h) hm' hm (by simpa using List.find?_some hsome)
    exact Or.inr ⟨p, hfor, hp⟩

end Contract

/-! ## Blocks -/

namespace Implementation

/-- The lines that a method has in a source: with a route, those of the plan that was made of it, and
otherwise a comment. -/
inductive IsBlock (impl : Implementation) (m : Method) : List String → Prop
  | routed {p : Plan} (hmem : p ∈ impl.plans) (hfor : p.IsFor impl.interface m) :
    IsBlock impl m
      (["    // " ++ p.route.verb.word ++ " " ++ p.route.path,
        "    " ++ Source.signature m ++ " \x7b"] ++
      p.chain.render.map ("        " ++ ·) ++
      ["    \x7d"])
  | unrouted (hroute : m.route = none) :
    IsBlock impl m ["    // not routed: " ++ Source.signature m]

theorem mem_plans_of_plan? {impl : Implementation} {name : String} {p : Plan}
    (h : impl.plan? name = some p) : p ∈ impl.plans :=
  List.mem_of_find?_eq_some h

end Implementation

/-- What a description adds to a source. -/
def Contract.descriptionLines (c : Contract) : List String :=
  match c.description with
  | some text => (Text.lines text.toList).map String.ofList
  | none => []

namespace Source

theorem spaced_eq : ∀ groups : List (List String), spaced groups = [""].intercalate groups
  | [] => rfl
  | [g] => by simp [spaced]
  | g :: g' :: gs => by
    rw [spaced, spaced_eq (g' :: gs), List.intercalate_cons_cons]
    · simp
    · simp

theorem infix_spaced {g : List String} : ∀ {groups : List (List String)}, g ∈ groups →
    g <:+: spaced groups
  | [_], h => by
    obtain rfl := List.mem_singleton.mp h
    exact List.infix_rfl
  | g' :: g'' :: groups, h => by
    rw [spaced]
    · rcases List.mem_cons.mp h with rfl | h
      · exact (List.prefix_append _ _).isInfix
      · exact (infix_spaced h).trans ((List.suffix_cons _ _).trans (List.suffix_append _ _)).isInfix
    · simp

theorem header_eq (c : Contract) (typeName fingerprint : String) :
    header c typeName fingerprint =
      ["// Generated by rest-synth. Do not edit.",
       "// interface: " ++ c.name,
       "// fingerprint: " ++ fingerprint,
       ""] ++
      c.descriptionLines.map ("/// " ++ ·) ++
      ["pub struct " ++ typeName ++ " \x7b",
       "    transports: Arc<dyn TransportResolver>,",
       "    codec: Arc<dyn Codec>,",
       "\x7d",
       "",
       "#[async_trait]",
       "impl " ++ c.shortName ++ " for " ++ typeName ++ " \x7b"] := by
  unfold header Contract.descriptionLines
  cases c.description with
  | none => rfl
  | some text =>
    rw [List.map_map]
    rfl

section MethodLines

variable {impl : Implementation} {m : Method}

theorem methodLines_of_some {p : Plan} (h : impl.plan? m.name = some p) :
    methodLines impl.plans m = planLines p := by
  rw [Implementation.plan?] at h
  rw [methodLines, h]

theorem methodLines_of_none (h : impl.plan? m.name = none) :
    methodLines impl.plans m = [indent ++ "// not routed: " ++ signature m] := by
  rw [Implementation.plan?] at h
  rw [methodLines, h]

end MethodLines

/-- What is written for a method of an accepted contract is its block. -/
theorem isBlock_methodLines {c : Contract} {impl : Implementation} (h : c.synthesize = .ok impl)
    {m : Method} (hm : m ∈ c.methods) : impl.IsBlock m (methodLines impl.plans m) := by
  rcases Contract.plan?_of_mem h hm with ⟨hr, hnone⟩ | ⟨p, hfor, hsome⟩
  · rw [methodLines_of_none hnone]
    exact .unrouted hr
  · have hblock := Implementation.IsBlock.routed (Implementation.mem_plans_of_plan? hsome)
      ((Contract.synthesize_eq_ok h).1 ▸ hfor)
    rw [methodLines_of_some hsome, planLines, hfor.contract]
    exact hblock

end Source

namespace Contract

variable {c : Contract} {impl : Implementation}

theorem synthesize_emit (h : c.synthesize = .ok impl) :
    impl.source = Source.emit c (TypeName.ofInterface c.name) c.fingerprint impl.plans := by
  conv_lhs => rw [← synthesize_implementation h]
  rfl

/-- The block of a method stands in the source, between other lines. -/
theorem exists_block (h : c.synthesize = .ok impl) {m : Method} (hm : m ∈ c.methods) :
    ∃ block before after, impl.IsBlock m block ∧
      impl.source = String.join ((before ++ block ++ after).map (· ++ "\n")) := by
  have hmem := List.mem_map_of_mem (f := Source.methodLines impl.plans) hm
  have hinfix : Source.methodLines impl.plans m <:+:
      Source.header c (TypeName.ofInterface c.name) c.fingerprint ++
        Source.spaced (c.methods.map (Source.methodLines impl.plans)) ++ ["\x7d"] :=
    (Source.infix_spaced hmem).trans (List.infix_append _ _ _)
  obtain ⟨before, after, hlines⟩ := hinfix
  refine ⟨_, before, after, Source.isBlock_methodLines h hm, ?_⟩
  rw [hlines]
  exact synthesize_emit h

/-- **A source has one block for each method, in order, and each is that of its method.** Around the
blocks stand the lines that show the identity, the fingerprint, the description and the names of the
type and of the interface; between two blocks is an empty line; and every line ends with a line break.
No two methods have one name. -/
theorem synthesize_source (h : c.synthesize = .ok impl) :
    (c.methods.map (·.name)).Nodup ∧
    ∃ blocks, List.Forall₂ impl.IsBlock c.methods blocks ∧
      impl.source = String.join
        ((["// Generated by rest-synth. Do not edit.",
           "// interface: " ++ c.name,
           "// fingerprint: " ++ c.fingerprint,
           ""] ++
          c.descriptionLines.map ("/// " ++ ·) ++
          ["pub struct " ++ TypeName.ofInterface c.name ++ " \x7b",
           "    transports: Arc<dyn TransportResolver>,",
           "    codec: Arc<dyn Codec>,",
           "\x7d",
           "",
           "#[async_trait]",
           "impl " ++ c.shortName ++ " for " ++ TypeName.ofInterface c.name ++ " \x7b"] ++
          [""].intercalate blocks ++
          ["\x7d"]).map (· ++ "\n")) := by
  refine ⟨nodup_names h, c.methods.map (Source.methodLines impl.plans), ?_, ?_⟩
  · rw [List.forall₂_map_right_iff, List.forall₂_same]
    exact fun m hm => Source.isBlock_methodLines h hm
  · rw [synthesize_emit h, Source.emit, Source.text, Source.header_eq, Source.spaced_eq]

/-- A method without a route before one with a route. -/
def drafting : Contract where
  name := "shop::IWidgets"
  description := some "Widgets.\nNothing else."
  methods :=
    [{ name := "draft", params := [⟨"widget", " Widget"⟩] },
     { name := "list", returns := some "Future<Vec<Widget>>", route := some ⟨"/widgets", .get⟩ }]

theorem synthesize_drafting :
    ∃ impl, drafting.synthesize = .ok impl ∧
      impl.source = String.join
        ["// Generated by rest-synth. Do not edit.\n",
         "// interface: shop::IWidgets\n",
         "// fingerprint: fa88ac5f8bcde18f7e1191d82d3c6699924f7756fa98fc2f40465132a86cbbbf\n",
         "\n",
         "/// Widgets.\n",
         "/// Nothing else.\n",
         "pub struct Widgets \x7b\n",
         "    transports: Arc<dyn TransportResolver>,\n",
         "    codec: Arc<dyn Codec>,\n",
         "\x7d\n",
         "\n",
         "#[async_trait]\n",
         "impl IWidgets for Widgets \x7b\n",
         "    // not routed: async fn draft(&self, widget: Widget) -> Result<(), InvocationError>\n",
         "\n",
         "    // GET /widgets\n",
         "    async fn list(&self) -> Result<Vec<Widget>, InvocationError> \x7b\n",
         "        let transport = self.transports.transport_for(\"shop::IWidgets\")" ++
           ".ok_or_else(|| InvocationError::missing_transport(\"shop::IWidgets\"))?;\n",
         "        let url = fill_route(\"/widgets\", &[])?;\n",
         "        let request = HttpRequest::new(HttpVerb::Get, url);\n",
         "        let response = transport.send(request).await?.error_for_status()?;\n",
         "        let result: Vec<Widget> = self.codec.deserialize(&response.body)?;\n",
         "        Ok(result)\n",
         "    \x7d\n",
         "\x7d\n"] := by
  obtain ⟨impl, h⟩ : ∃ impl, drafting.synthesize = .ok impl :=
    synthesize_isOk_iff.mpr (by decide +kernel)
  obtain ⟨-, blocks, hblocks, hsource⟩ := synthesize_source h
  refine ⟨impl, h, ?_⟩
  have hfingerprint : drafting.fingerprint =
      "fa88ac5f8bcde18f7e1191d82d3c6699924f7756fa98fc2f40465132a86cbbbf" := by
    rw [fingerprint, canonical, Json.render, Sha256.ofText_ofList]
    decide +kernel
  rw [hsource, hfingerprint]
  refine congrArg String.join ?_
  cases hblocks with | cons hdraft hblocks =>
  cases hblocks with | cons hlist hblocks =>
  cases hblocks with | nil =>
  cases hdraft with
  | routed _ hfor => nomatch hfor.route
  | unrouted =>
    cases hlist with
    | unrouted hnone => nomatch hnone
    | routed _ hfor =>
      -- Only the lines of this method are not known yet, and they are what its plan comes to.
      rw [(synthesize_eq_ok h).1] at hfor
      apply hfor.eq_of_map rfl (f := fun p => _)
      decide +kernel

end Contract

end ClientSynth

import ClientSynth.Proofs.Invocation.Refinement
import ClientSynth.Proofs.Synthesis.Blocks
import ClientSynth.Proofs.Synthesis.Frames
import ClientSynth.Proofs.Synthesis.SourceNames
import ClientSynth.Proofs.TypeExpr.Printing

/-!
# `ClientSynth.Proofs.Synthesis.Signatures` — a signature and the body below it

The signature in a source is written from the contract alone: it reads the types again, takes the one
argument of whatever the return type is called, and has something to say where a type cannot be read.
The body is written from a chain, whose types were read when it was assembled and whose payload comes
from a return type that has one of two names. The two sides have to agree:

> a signature returns what the chain returns, its parameters are the arguments of the chain, and the
> last line of the body returns a value if and only if the signature returns one
> (`synthesize_signature`).

The payload is where they meet. For a method that was accepted, both rules come to what the contract
promises (`Method.promised?`), which is never `()`; and no type but `()` is shown as `()`.
-/

set_option autoImplicit false

namespace ClientSynth

/-! ## What is shown of a chain -/

/-- A variable as a parameter. -/
def Variable.declaration (v : Variable) : String :=
  v.name ++ ": " ++ v.type.display

namespace Chain

/-- How the type that a chain returns is shown: `()` if it returns nothing. -/
def resultText (c : Chain) : String :=
  (c.returnType?.map TypeExpr.display).getD "()"

/-- The value that a chain reads from a response, if it reads one. -/
def result? (c : Chain) : Option Variable :=
  (c.frames.find? (·.kind == .deserializeResponse)).bind (·.output)

end Chain

/-! ## Types that are shown as `()` -/

namespace TypeExpr

theorem isWellFormed_of_singleArg? {t u : TypeExpr} (h : t.IsWellFormed)
    (hu : t.singleArg? = some u) : u.IsWellFormed := by
  cases h with
  | unit => nomatch hu
  | @apply n args _ hargs =>
    match args, hu with
    | [only], hu => exact Option.some.inj hu ▸ hargs only List.mem_cons_self

/-- Only `()` is shown as `()`. -/
theorem display_eq_unitName_iff {t : TypeExpr} (h : t.IsWellFormed) :
    t.display = "()" ↔ t = .unit := by
  constructor
  · intro hdisplay
    have hread := ofString?_display h
    rw [hdisplay, show ("()" : String) = unit.display from rfl, ofString?_display .unit] at hread
    exact (Option.some.inj hread).symm
  · rintro rfl
    rfl

end TypeExpr

theorem Method.promised?_isWellFormed {m : Method} {t : TypeExpr} (h : m.promised? = some t) :
    t.IsWellFormed ∧ t ≠ .unit := by
  obtain ⟨hbind, hne⟩ := Option.filter_eq_some_iff.mp h
  obtain ⟨u, hread, hsingle⟩ := Option.bind_eq_some_iff.mp hbind
  obtain ⟨written, -, hread⟩ := Option.bind_eq_some_iff.mp hread
  exact ⟨TypeExpr.isWellFormed_of_singleArg? (TypeExpr.isWellFormed_of_ofString? hread) hsingle,
    by simpa using hne⟩

/-! ## The two sides of a signature -/

namespace Source

/-- The type in a signature is what the contract promises. -/
theorem result_eq (m : Method) :
    result m.returns = (m.promised?.map TypeExpr.display).getD "()" := by
  unfold result Method.promised?
  cases (m.returns.bind TypeExpr.ofString?).bind (·.singleArg?) with
  | none => rfl
  | some t =>
    by_cases ht : t = .unit
    · subst ht
      rfl
    · simp [ht, mt TypeExpr.isUnit_iff.mp ht, Option.filter]

theorem param_eq_declaration {p : Param} {v : Variable} (h : p.Reads v) :
    param p = v.declaration := by
  rw [param, h.2, Variable.declaration, h.1]

end Source

/-! ## The end of a body -/

namespace Method

variable {interface : String} {m : Method} {route : Route} {bs : List Binding} {cl : Classification}
  {c : Chain}

/-- The frames of a method are some that read no response, and then those of its ending. -/
theorem exists_ending (h : c.frames.map Frame.shape = wiring interface route bs cl) :
    ∃ before last, c.frames = before ++ last ∧
      (∀ f ∈ before, f.kind ≠ .deserializeResponse) ∧
      before.length = (responseFrame cl.body + 1).toNat ∧
      last.map Frame.shape = ending (responseFrame cl.body) cl.payload := by
  have hsplit : wiring interface route bs cl =
      ((.acquireTransport interface, [], some FrameType.transport) ::
        (.buildUrl route.path bs, boundInputs bs, some FrameType.url) ::
        exchange route.verb cl.body) ++ ending (responseFrame cl.body) cl.payload := rfl
  rw [hsplit, List.map_eq_append_iff] at h
  obtain ⟨before, last, hframes, hbefore, hlast⟩ := h
  have hlength := congrArg List.length hbefore
  have hkinds : ∀ shape ∈ before.map Frame.shape, shape.1.kind ≠ .deserializeResponse := by
    rw [hbefore]
    cases cl.body <;> simp [exchange, Op.kind]
  refine ⟨before, last, hframes, fun f hf => hkinds _ (List.mem_map_of_mem hf), ?_, hlast⟩
  rw [List.length_map] at hlength
  rw [hlength]
  cases cl.body <;> rfl

/-- Either nothing is read from the response, and nothing is returned, or what is read is. -/
theorem result?_of_shapes (h : c.frames.map Frame.shape = wiring interface route bs cl) :
    (cl.payload = none ∧ c.result? = none ∧ c.render.getLast? = some "Ok(())") ∨
      ∃ v, cl.payload = some v.type ∧ c.result? = some v ∧
        c.render.getLast? = some ("Ok(" ++ v.name ++ ")") := by
  obtain ⟨before, last, hframes, hbefore, hlength, hlast⟩ := exists_ending h
  -- The first frame that reads a response is found in the ending, if there is one.
  have hresult : c.result? = (last.find? (·.kind == .deserializeResponse)).bind (·.output) := by
    have hfind : before.find? (·.kind == .deserializeResponse) = none := by simpa using hbefore
    rw [Chain.result?, hframes, List.find?_append, hfind, Option.none_or]
  cases hp : cl.payload with
  | none =>
    rw [hp, ending, List.map_eq_singleton_iff] at hlast
    obtain ⟨f, rfl, hf⟩ := hlast
    have hop : f.op = .returnValue := congrArg (·.1) hf
    have hinputs : f.inputs = [] := congrArg (·.2.1) hf
    refine Or.inl ⟨rfl, ?_, ?_⟩
    · simp [hresult, Frame.kind, hop, Op.kind]
    · simp [Chain.render, hframes, Frame.render, hop, hinputs]
  | some type =>
    rw [hp, ending] at hlast
    obtain ⟨g, f, rfl, hg, hf⟩ : ∃ g f, last = [g, f] ∧
        g.shape = (.deserializeResponse type, [.frame (responseFrame cl.body)], some type) ∧
        f.shape = (.returnValue, [.frame (responseFrame cl.body + 1)], none) := by
      simpa [List.map_eq_cons_iff] using hlast
    have hgop : g.op = .deserializeResponse type := congrArg (·.1) hg
    have hop : f.op = .returnValue := congrArg (·.1) hf
    have hinputs : f.inputs = [.frame (responseFrame cl.body + 1)] := congrArg (·.2.1) hf
    obtain ⟨v, hv, rfl⟩ := Option.map_eq_some_iff.mp (congrArg (·.2.2) hg)
    -- What is returned is the output of the frame just before, by its position.
    have hname : c.nameOf? (.frame (responseFrame cl.body + 1)) = some v.name := by
      simp [Chain.nameOf?, Chain.lookup?, hframes, ← hlength, hv]
    refine Or.inr ⟨v, rfl, ?_, ?_⟩
    · simp [hresult, Frame.kind, hgop, Op.kind, hv]
    · simp only [Chain.render, hframes, List.map_append, List.map_cons, List.map_nil]
      simp [Frame.render, hop, hinputs, hname]

end Method

/-! ## Signatures -/

namespace Plan

variable {interface : String} {m : Method} {p : Plan}

/-- The payload of a plan is what the contract promises. -/
theorem IsFor.promised?_eq (h : p.IsFor interface m) : m.promised? = p.classification.payload :=
  Classification.payloadOf_eq_ok (Classification.ofMethod_eq_ok h.classification).2

/-- A signature shows the arguments of the chain and what the chain returns. -/
theorem IsFor.signature_eq (h : p.IsFor interface m) :
    Source.signature m =
      "async fn " ++ m.name ++
        "(" ++ ", ".intercalate ("&self" :: p.chain.arguments.map Variable.declaration) ++
        ") -> Result<" ++ p.chain.resultText ++ ", InvocationError>" := by
  obtain ⟨hargs, -, hshapes⟩ := Method.assemble_shapes h.chain
  have hparams : m.params.map Source.param = p.chain.arguments.map Variable.declaration :=
    map_eq_map_of_forall₂ (fun _ _ hp => Source.param_eq_declaration hp)
      (Method.arguments_eq_ok hargs)
  rw [Source.signature, hparams, Source.result_eq, h.promised?_eq,
    ← Method.returnType?_of_shapes hshapes, Chain.resultText]

/-- What is read from a response has a type that is not `()` and a name that is not `()` either. -/
theorem IsFor.result?_shown (h : p.IsFor interface m) {v : Variable}
    (hv : p.chain.result? = some v) (hpayload : p.classification.payload = some v.type) :
    v.type.display ≠ "()" ∧ v.name ≠ "()" := by
  obtain ⟨hwell, hne⟩ := Method.promised?_isWellFormed (h.promised?_eq.trans hpayload)
  refine ⟨mt (TypeExpr.display_eq_unitName_iff hwell).mp hne, fun hname => ?_⟩
  obtain ⟨f, hf, hv⟩ := Option.bind_eq_some_iff.mp hv
  have hnamed := Method.assemble_namedByKind h.chain f (List.mem_of_find?_eq_some hf)
  exact absurd (hnamed.isAlphanum hv '(' (by simp [hname])) (by decide)

/-- A body returns a value if and only if the chain returns something. -/
theorem IsFor.render_getLast? (h : p.IsFor interface m) :
    (p.chain.resultText = "()" ∧ p.chain.result? = none ∧
        p.chain.render.getLast? = some "Ok(())") ∨
      ∃ v, p.chain.resultText = v.type.display ∧ p.chain.result? = some v ∧
        v.type.display ≠ "()" ∧ v.name ≠ "()" ∧
        p.chain.render.getLast? = some ("Ok(" ++ v.name ++ ")") := by
  obtain ⟨-, -, hshapes⟩ := Method.assemble_shapes h.chain
  have hreturn := Method.returnType?_of_shapes hshapes
  rcases Method.result?_of_shapes hshapes with ⟨hpayload, hresult, hlast⟩ | ⟨v, hpayload, hresult, hlast⟩
  · refine Or.inl ⟨?_, hresult, hlast⟩
    rw [Chain.resultText, hreturn, hpayload]
    rfl
  · obtain ⟨htype, hname⟩ := h.result?_shown hresult hpayload
    refine Or.inr ⟨v, ?_, hresult, htype, hname, hlast⟩
    rw [Chain.resultText, hreturn, hpayload]
    rfl

end Plan

namespace Contract

/-- **Signatures go with bodies.** In a source, the signature of a method with a route returns what the
chain below it returns, or `()` if that is nothing; its parameters are the arguments of the chain, by
their names and types, in order; and the last line of the body returns the value that was read from the
response if the signature returns anything but `()`, and `()` otherwise. -/
theorem synthesize_signature {c : Contract} {impl : Implementation} (h : c.synthesize = .ok impl)
    {m : Method} (hm : m ∈ c.methods) (hr : m.isRouted = true) :
    ∃ p ∈ impl.plans, p.IsFor c.name m ∧
      (∃ before after, impl.source = String.join
        ((before ++
          (("    " ++ Source.signature m ++ " \x7b") :: p.chain.render.map ("        " ++ ·) ++
            ["    \x7d"]) ++
          after).map (· ++ "\n"))) ∧
      Source.signature m =
        "async fn " ++ m.name ++
          "(" ++ ", ".intercalate ("&self" :: p.chain.arguments.map Variable.declaration) ++
          ") -> Result<" ++ p.chain.resultText ++ ", InvocationError>" ∧
      (p.chain.resultText ≠ "()" ↔
        ∃ v, p.chain.result? = some v ∧ v.type.display = p.chain.resultText ∧
          p.chain.render.getLast? = some ("Ok(" ++ v.name ++ ")")) ∧
      (p.chain.resultText = "()" ↔ p.chain.render.getLast? = some "Ok(())") := by
  obtain ⟨block, before, after, hblock, hsource⟩ := exists_block h hm
  cases hblock with
  | unrouted hnone => exact absurd hr (by simp [Method.isRouted, hnone])
  | @routed p hp hfor =>
    rw [(synthesize_eq_ok h).1] at hfor
    refine ⟨p, hp, hfor,
      ⟨before ++ ["    // " ++ p.route.verb.word ++ " " ++ p.route.path], after, ?_⟩,
      hfor.signature_eq, ?_⟩
    · rw [hsource]
      simp only [List.append_assoc, List.cons_append, List.nil_append]
    · rcases hfor.render_getLast? with
        ⟨htext, hresult, hlast⟩ | ⟨v, htext, hresult, htype, hname, hlast⟩
      · simp [htext, hresult, hlast]
      · have hne : "Ok(" ++ v.name ++ ")" ≠ "Ok(())" := fun heq => by
          replace heq : "Ok(" ++ v.name ++ ")" = "Ok(" ++ "()" ++ ")" := heq
          rw [String.append_left_inj, String.append_right_inj] at heq
          exact hname heq
        simp [htext, hresult, hlast, htype, hne]

/-- A method with blanks in its types, and with a parameter that has the name of a result. -/
def replacing : Method where
  name := "replace"
  params := [⟨"id", "i64"⟩, ⟨"result", "Map< i64,Widget >"⟩]
  returns := some "Task< Vec<Widget> >"
  route := some ⟨"/widgets/{id}", .put⟩

theorem synthesize_signature_replacing :
    ∃ impl, synthesize { name := "IWidgets", methods := [replacing] } = .ok impl ∧
      ∃ before after, impl.source = String.join
        (before ++
        ["    async fn replace(&self, id: i64, result: Map<i64, Widget>) -> " ++
           "Result<Vec<Widget>, InvocationError> \x7b\n",
         "        let transport = self.transports.transport_for(\"IWidgets\")" ++
           ".ok_or_else(|| InvocationError::missing_transport(\"IWidgets\"))?;\n",
         "        let url = fill_route(\"/widgets/{id}\", &[(\"id\", &id as &dyn Display)])?;\n",
         "        let request = HttpRequest::new(HttpVerb::Put, url);\n",
         "        let response = transport.send(request).await?.error_for_status()?;\n",
         "        let result1: Vec<Widget> = self.codec.deserialize(&response.body)?;\n",
         "        Ok(result1)\n",
         "    \x7d\n"] ++
        after) := by
  obtain ⟨impl, h⟩ : ∃ impl, synthesize { name := "IWidgets", methods := [replacing] } = .ok impl :=
    synthesize_isOk_iff.mpr (by decide +kernel)
  obtain ⟨p, -, hfor, ⟨before, after, hsource⟩, -⟩ :=
    synthesize_signature h (List.mem_singleton.mpr rfl) rfl
  refine ⟨impl, h, before.map (· ++ "\n"), after.map (· ++ "\n"), hsource.trans ?_⟩
  rw [List.map_append, List.map_append]
  congr 3
  apply hfor.eq_of_map rfl (f := fun p => _)
  decide +kernel

end Contract

end ClientSynth

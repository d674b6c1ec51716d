import ClientSynth.Proofs.Invocation.DirectCall
import ClientSynth.Proofs.Route.Segments
import ClientSynth.Proofs.Synthesis.Bindings
import ClientSynth.Proofs.Synthesis.Wiring

/-!
# `ClientSynth.Proofs.Invocation.Refinement` — frames do what a call is

A client runs the frames of a plan: it reads slots by position, and arguments through bindings.
`Contract.call` has none of that. The headline of this file is that the two agree for every contract
that synthesis accepts:

> `invoke_eq_call`: the same result and the same requests, whatever the arguments, the resolver, the
> transports and the limit to the waiting are.

The plan comes in through four facts, one for each stage that made it: its frames are those of the
wiring, its bindings look parameters up by name, its body is what `sentAs?` says, and its payload is
what `promised?` says. After that only the interpreter is left, which is followed from the end of the
frames (`run_ending`) to their beginning (`run_plan`).
-/

set_option autoImplicit false

namespace ClientSynth

/-! ## Classification, by what the contract says -/

theorem TypeExpr.isUnit_iff {t : TypeExpr} : t.isUnit = true ↔ t = .unit := by
  obtain ⟨n, args⟩ := t
  simp [isUnit, unit, named, name, TypeExpr.args]

namespace Classification

/-- The body of a classification is what the contract says is sent, and it is the first parameter. -/
theorem bodyOf_eq_ok {interface : String} {m : Method} {route : Route} {body : Option BodyParam}
    (h : bodyOf interface m route = .ok body) :
    (body = none ∧ m.sentAs? route.path = none) ∨
      ∃ first rest type, m.params = first :: rest ∧ body = some ⟨0, first.name, type⟩ ∧
        m.sentAs? route.path = some type := by
  unfold Method.sentAs?
  cases hps : m.params with
  | nil =>
    obtain rfl : none = body := by simpa [bodyOf, hps] using h
    exact Or.inl ⟨rfl, rfl⟩
  | cons first rest =>
    rcases (bodyOf_cons_eq_ok_iff hps).mp h with ⟨hseg, rfl⟩ | ⟨hseg, type, ht, rfl⟩
    · exact Or.inl ⟨rfl, if_pos (Template.hasSegment_iff.mp hseg)⟩
    · have hnot : Piece.token first.name.toList ∉ Text.splitAt '/' route.path.toList :=
        fun hmem => by simp [Template.hasSegment_iff.mpr hmem] at hseg
      exact Or.inr ⟨first, rest, type, rfl, rfl, by simp [hnot, ht]⟩

/-- A return type has a payload if it has one argument, and then it is that, unless it is `()`. -/
theorem payload?_eq_some {type : TypeExpr} {payload : Option TypeExpr}
    (h : payload? type = some payload) : type.singleArg?.filter (· ≠ .unit) = payload := by
  obtain ⟨n, args⟩ := type
  unfold payload? at h
  unfold TypeExpr.singleArg?
  split at h
  · rename_i hu
    rw [TypeExpr.isUnit_iff, TypeExpr.unit, TypeExpr.named] at hu
    cases hu
    simpa [TypeExpr.args] using h
  · split at h
    · match args with
      | [] => simpa [TypeExpr.args] using h
      | [t] =>
        simp only [TypeExpr.args, Option.some.injEq] at h ⊢
        rw [← h]
        by_cases ht : t = .unit
        · simp [ht, TypeExpr.isUnit_iff.mpr rfl]
        · simp [ht, mt TypeExpr.isUnit_iff.mp ht]
      | _ :: _ :: _ => exact absurd h (by simp [TypeExpr.args])
    · exact absurd h (by simp)

/-- The payload of a classification is what the contract promises. -/
theorem payloadOf_eq_ok {interface : String} {m : Method} {payload : Option TypeExpr}
    (h : payloadOf interface m = .ok payload) : m.promised? = payload := by
  unfold payloadOf at h
  unfold Method.promised?
  cases hr : m.returns with
  | none =>
    simp only [hr, Except.ok.injEq] at h
    simp [← h]
  | some written =>
    cases ht : TypeExpr.ofString? written with
    | none => simp [hr, ht] at h
    | some type =>
      cases hp : payload? type with
      | none => simp [hr, ht, hp] at h
      | some p =>
        simp only [hr, ht, hp, Except.ok.injEq] at h
        subst h
        simpa [ht] using payload?_eq_some hp

end Classification

/-! ## Running frames -/

/-- The frame of a shape, with an output that has no name. -/
def Frame.bare (shape : Op × List Ref × Option TypeExpr) : Frame :=
  ⟨shape.1, shape.2.1, none⟩

namespace CallContext

variable {τ : Type} (cx : CallContext τ) (deliver : τ → Request → Delivery)

/-- Names and types of outputs do not matter to a run. -/
theorem run_shapes : ∀ (slots : List (Slot τ)) (fs : List Frame),
    cx.run deliver slots fs = cx.run deliver slots ((fs.map Frame.shape).map Frame.bare)
  | _, [] => rfl
  | slots, f :: fs => by
    have hperform : cx.perform slots f = cx.perform slots (Frame.bare f.shape) := rfl
    have hkind : f.kind = (Frame.bare f.shape).kind := rfl
    have ih := fun slots' => run_shapes slots' fs
    simp only [List.map_cons, run, ← hperform, ← hkind, ih]

/-! ### One frame -/

section Step

variable {cx} {deliver} {slots : List (Slot τ)} {f : Frame} {rest : List Frame}

theorem run_error {e : InvocationError} (h : cx.perform slots f = .error e) :
    cx.run deliver slots (f :: rest) = { result := .error e } := by
  rw [run, h]

theorem run_keep {slot : Slot τ} (h : cx.perform slots f = .ok (.keep slot))
    (hk : f.kind ≠ .returnValue) :
    cx.run deliver slots (f :: rest) = cx.run deliver (slots ++ [slot]) rest := by
  rw [run, h]
  exact if_neg hk

theorem run_return {slot : Slot τ} (h : cx.perform slots f = .ok (.keep slot))
    (hk : f.kind = .returnValue) :
    cx.run deliver slots (f :: rest) = { result := .ok slot.result } := by
  rw [run, h]
  exact if_pos hk

theorem slotInput_eq {position : Nat} {i : UInt16} {slot : Slot τ}
    (hf : f.inputs[position]? = some (.frame i)) (hs : slots[i.toNat]? = some slot) :
    cx.slotInput slots f position = .ok slot := by
  simp only [slotInput, hf, hs]

theorem valueInput_eq_slot {position : Nat} {i : UInt16} {v : Json}
    (hf : f.inputs[position]? = some (.frame i)) (hs : slots[i.toNat]? = some (.value v)) :
    cx.valueInput slots f position = .ok v := by
  simp only [valueInput, hf, hs]

theorem valueInput_eq_argument {position : Nat} {i : UInt16} {v : Json}
    (hf : f.inputs[position]? = some (.argument i)) (hv : cx.arguments[i.toNat]? = some v) :
    cx.valueInput slots f position = .ok v := by
  simp only [valueInput, hf, hv]

end Step

/-! ### From the end to the beginning -/

/-- What the frames after the response come to. -/
def ended (r : Response) : Option TypeExpr → Except InvocationError Json
  | none => .ok .null
  | some type =>
    match Codec.decode cx.fault type r.body with
    | .ok v => .ok v
    | .error e => .error (.deserialization cx.method type.display e.message)

theorem run_ending {slots : List (Slot τ)} {i : UInt16} {r : Response}
    (hr : slots[i.toNat]? = some (.response r)) (hlast : slots.length = (i + 1).toNat)
    (payload : Option TypeExpr) :
    cx.run deliver slots ((Method.ending i payload).map Frame.bare) =
      { result := cx.ended r payload } := by
  cases payload with
  | none => rfl
  | some type =>
    have hread : cx.perform slots (Frame.bare (.deserializeResponse type, [.frame i], some type)) =
        cx.deserialize type r := by
      show (cx.slotInput slots _ 0 >>= _) = _
      rw [slotInput_eq rfl hr]
      rfl
    unfold deserialize at hread
    unfold ended
    cases hd : Codec.decode cx.fault type r.body with
    | error e =>
      rw [hd] at hread
      simp only [hd]
      exact run_error hread
    | ok v =>
      rw [hd] at hread
      simp only [hd]
      have hv : (slots ++ [Slot.value v])[(i + 1).toNat]? = some (.value v) := by
        rw [← hlast, List.getElem?_concat_length]
      have hreturn : cx.perform (slots ++ [.value v])
          (Frame.bare (.returnValue, [.frame (i + 1)], none)) = .ok (.keep (.value v)) := by
        show _ <$> cx.valueInput _ _ 0 = _
        rw [valueInput_eq_slot rfl hv]
        rfl
      exact (run_keep hread (by rintro ⟨⟩)).trans (run_return hreturn rfl)

/-- What comes of a delivery when the frames after the response are those of a payload. -/
def received (payload : Option TypeExpr) (d : Delivery) : Except InvocationError Json :=
  match cx.accept d with
  | .error e => .error e
  | .ok r => cx.ended r payload

/-- The call of the transport and the frames after it. -/
theorem run_send {slots : List (Slot τ)} {t : τ} {q : Request} {i : UInt16}
    (ht : slots[0]? = some (.transport t)) (hq : slots[i.toNat]? = some (.request q))
    (hi : slots.length = (i + 1).toNat) (hlast : slots.length + 1 = (i + 1 + 1).toNat)
    (payload : Option TypeExpr) :
    cx.run deliver slots
        (Frame.bare (.invokeTransport, [.frame 0, .frame i], some FrameType.response) ::
          (Method.ending (i + 1) payload).map Frame.bare) =
      { result := cx.received payload (deliver t q), sent := [(t, q)] } := by
  have hsend : cx.perform slots
      (Frame.bare (.invokeTransport, [.frame 0, .frame i], some FrameType.response)) =
        .ok (.send t q) := by
    show cx.invokeTransport slots _ = _
    rw [invokeTransport, slotInput_eq rfl ht, slotInput_eq rfl hq]
    rfl
  rw [run, hsend]
  unfold received
  show (match cx.accept (deliver t q) with | .error e => _ | .ok response => _) = _
  cases ha : cx.accept (deliver t q) with
  | error e => rfl
  | ok r =>
    have hr : (slots ++ [Slot.response r])[(i + 1).toNat]? = some (.response r) := by
      rw [← hi, List.getElem?_concat_length]
    have hend := cx.run_ending deliver hr (by rw [← hlast, List.length_append]; rfl) payload
    show (cx.run deliver _ _).after t q = _
    rw [hend]
    rfl

/-- The frames of a request without a body, and those after them. -/
theorem run_plain (t : τ) (url : String) (verb : Verb) (payload : Option TypeExpr) :
    cx.run deliver [.transport t, .url url]
        ((Method.exchange verb none ++ Method.ending 3 payload).map Frame.bare) =
      { result := cx.received payload (deliver t (.of verb url none)),
        sent := [(t, .of verb url none)] } := by
  have hrequest : cx.perform [.transport t, .url url]
      (Frame.bare (.buildRequest verb false, [.frame 1], some FrameType.request)) =
        .ok (.keep (.request (.of verb url none))) := rfl
  rw [Method.exchange, List.map_append]
  refine (run_keep hrequest (by rintro ⟨⟩)).trans ?_
  exact cx.run_send deliver (i := 2) rfl rfl rfl rfl payload

/-- The frames of a request with a body, and those after them. -/
theorem run_body (t : τ) (url : String) (verb : Verb) (payload : Option TypeExpr)
    {p : BodyParam} {v : Json} (hv : cx.arguments[p.index.toNat]? = some v) :
    cx.run deliver [.transport t, .url url]
        ((Method.exchange verb (some p) ++ Method.ending 4 payload).map Frame.bare) =
      match Codec.encode p.type v with
      | .error e => { result := .error (.serialization cx.method p.type.display e.message) }
      | .ok bytes =>
        { result := cx.received payload (deliver t (.of verb url (some bytes))),
          sent := [(t, .of verb url (some bytes))] } := by
  have hread : cx.perform [.transport t, .url url]
      (Frame.bare (.serializeBody p.type, [.argument p.index], some FrameType.body)) =
        cx.serialize p.type v := by
    show (cx.valueInput _ _ 0 >>= _) = _
    rw [valueInput_eq_argument rfl hv]
    rfl
  unfold serialize at hread
  rw [Method.exchange, List.map_append]
  cases he : Codec.encode p.type v with
  | error e =>
    rw [he] at hread
    exact run_error hread
  | ok bytes =>
    rw [he] at hread
    have hrequest : cx.perform [.transport t, .url url, .body bytes]
        (Frame.bare (.buildRequest verb true, [.frame 1, .frame 2], some FrameType.request)) =
          .ok (.keep (.request (.of verb url (some bytes)))) := rfl
    refine (run_keep hread (by rintro ⟨⟩)).trans ?_
    refine (run_keep hrequest (by rintro ⟨⟩)).trans ?_
    exact cx.run_send deliver (i := 3) rfl rfl rfl rfl payload

end CallContext

/-! ## Calls -/

namespace Method

variable {τ : Type} {m : Method}

section Received

variable (resolve : String → Option τ) (fault : ByteArray → String) (arguments : List Json)

/-- What a frame decodes from a body is what the body is read as. -/
theorem ended_eq_decodedBody (r : Response) :
    CallContext.ended ⟨m.name, resolve, fault, arguments⟩ r m.promised? =
      m.decodedBody fault r.body := by
  unfold CallContext.ended decodedBody
  cases m.promised? with
  | none => rfl
  | some type =>
    show (match Codec.decode fault type r.body with | .ok v => _ | .error e => _) = _
    unfold Codec.decode
    cases Codec.valueOf? r.body with
    | none => rfl
    | some v =>
      dsimp only
      cases Codec.check type v <;> rfl

/-- What the frames at the end make of a reply is what the contract says. -/
theorem received_reply (r : Reply) :
    CallContext.received ⟨m.name, resolve, fault, arguments⟩ m.promised? (.reply r) =
      m.replied fault r := by
  unfold CallContext.received CallContext.accept replied
  cases r with
  | failure message => rfl
  | response r =>
    have hs : r.isSuccess = true ↔ 200 ≤ r.status ∧ r.status < 300 := by
      simp [Response.isSuccess]
    by_cases h : r.isSuccess = true
    · simp only [if_pos h, if_pos (hs.mp h)]
      exact ended_eq_decodedBody resolve fault arguments r
    · simp only [if_neg h, if_neg (mt hs.mpr h)]

/-- A client that stops waiting at a limit settles a call as the contract says. -/
theorem received_eq_settle (limit : Option Duration) (a : Answer) :
    CallContext.received ⟨m.name, resolve, fault, arguments⟩ m.promised? (a.within limit) =
      m.settle fault limit a := by
  unfold settle
  cases limit with
  | none => exact received_reply resolve fault arguments a.reply
  | some l =>
    by_cases hlate : l.inNanos < a.delay.inNanos
    · have hdelay : ¬ a.delay ≤ l := fun h => absurd (Duration.le_iff.mp h) (Nat.not_le.mpr hlate)
      rw [Option.filter_some_pos (by simpa using hlate), Answer.within, if_neg hdelay]
      show Except.error (InvocationError.timeout m.name l.inMillis.toUInt64) = _
      rw [Duration.inMillis_eq]
    · have hdelay : a.delay ≤ l := Duration.le_iff.mpr (Nat.not_lt.mp hlate)
      rw [Option.filter_some_neg (by simpa using hlate), Answer.within, if_pos hdelay]
      exact received_reply resolve fault arguments a.reply

end Received

variable {vs : List Variable} {arguments : List Json}

/-- A placeholder is filled with the argument that its name stands for. -/
theorem placeholderText_bindings (hvs : List.Forall₂ Param.Reads m.params vs)
    (hps : m.params.length ≤ 65536) (has : arguments.length = m.params.length)
    (resolve : String → Option τ) (fault : ByteArray → String) {path name : String}
    (hname : name ∈ Template.names path) :
    CallContext.placeholderText ⟨m.name, resolve, fault, arguments⟩
        (bindings (Scope.ofArguments vs) path) name =
      (m.argument? arguments name).map Json.addressText := by
  have htext : CallContext.pathText = Json.addressText := by
    funext v
    cases v <;> rfl
  unfold CallContext.placeholderText argument?
  rw [find?_bindings hname, ← Scope.getElem?_resolveArgument? hvs hps has name, htext,
    Option.map_bind]
  rfl

/-- There is an argument for a name if some parameter has it. -/
theorem argument?_isNone (has : arguments.length = m.params.length) (name : String) :
    (m.argument? arguments name).isNone = m.params.all (·.name != name) := by
  unfold argument?
  rw [find?_zip (fun p : Param => p.name == name) m.params arguments has.symm]
  cases hi : m.params.findIdx? (·.name == name) with
  | none =>
    have hall := List.findIdx?_eq_none_iff.mp hi
    simpa using fun p hp => by simpa using hall p hp
  | some i =>
    obtain ⟨hlt, hp, -⟩ := List.findIdx?_eq_some_iff_getElem.mp hi
    have hlt' : i < arguments.length := has ▸ hlt
    have hnot : m.params.all (·.name != name) = false := by
      rw [List.all_eq_false]
      exact ⟨m.params[i], List.getElem_mem hlt, by simpa using hp⟩
    simp [hlt', hnot]

/-- The address of a call, or the leftmost placeholder that there is no parameter for. -/
theorem buildUrl_bindings (hvs : List.Forall₂ Param.Reads m.params vs)
    (hps : m.params.length ≤ 65536) (has : arguments.length = m.params.length)
    (resolve : String → Option τ) (fault : ByteArray → String) (path : String) :
    CallContext.buildUrl ⟨m.name, resolve, fault, arguments⟩ path
        (bindings (Scope.ofArguments vs) path) =
      match m.unmatched? path with
      | some name => .error (.unmatchedPlaceholder m.name name path)
      | none => .ok (.keep (.url (m.address path arguments))) := by
  have htext := fun name (h : name ∈ Template.names path) =>
    placeholderText_bindings hvs hps has resolve fault h
  have hnone : ∀ name ∈ Template.names path,
      (CallContext.placeholderText ⟨m.name, resolve, fault, arguments⟩
        (bindings (Scope.ofArguments vs) path) name).isNone = m.params.all (·.name != name) := by
    intro name h
    rw [htext name h, Option.isNone_map, argument?_isNone has]
  unfold CallContext.buildUrl
  cases hu : m.unmatched? path with
  | some name =>
    rw [unmatched?, ← find?_congr hnone] at hu
    rw [Template.fill_eq_error hu]
  | none =>
    have hsome : ∀ name ∈ Template.names path,
        CallContext.placeholderText ⟨m.name, resolve, fault, arguments⟩
            (bindings (Scope.ofArguments vs) path) name =
          some (((m.argument? arguments name).map Json.addressText).getD "") := by
      intro name h
      have hall := List.find?_eq_none.mp hu name h
      rw [← argument?_isNone has] at hall
      rw [htext name h]
      cases ha : m.argument? arguments name with
      | none => exact absurd (by simp [ha]) hall
      | some v => rfl
    rw [Template.fill_eq_ok hsome]
    rfl

/-- **The frames of a plan do what a call of its method is.** -/
theorem run_plan {interface : String} {p : Plan} (hp : p.IsFor interface m)
    (hps : m.params.length ≤ 65536) (has : arguments.length = m.params.length)
    (resolve : String → Option τ) (fault : ByteArray → String) (limit : Option Duration)
    (answer : τ → Request → Answer) :
    CallContext.run ⟨m.name, resolve, fault, arguments⟩ (fun t r => (answer t r).within limit) []
        p.chain.frames =
      match resolve interface with
      | none => { result := .error (.missingTransport interface) }
      | some t => m.callOver p.route t fault limit answer arguments := by
  obtain ⟨hargs, -, hshapes⟩ := assemble_shapes hp.chain
  obtain ⟨hbody, hpayload⟩ := Classification.ofMethod_eq_ok hp.classification
  have hvs := arguments_eq_ok hargs
  have hurl := buildUrl_bindings hvs hps has resolve fault p.route.path
  rw [CallContext.run_shapes, hshapes, wiring]
  generalize bindings (Scope.ofArguments p.chain.arguments) p.route.path = bs at hurl ⊢
  rw [← Classification.payloadOf_eq_ok hpayload]
  -- From here on the frames ask the questions of a call, one after the other.
  cases ht : resolve interface with
  | none =>
    refine CallContext.run_error ?_
    simp only [CallContext.perform, Frame.bare, ht]
  | some t =>
    have hacquire : CallContext.perform ⟨m.name, resolve, fault, arguments⟩ []
        (Frame.bare (.acquireTransport interface, [], some FrameType.transport)) =
          .ok (.keep (.transport t)) := by
      simp only [CallContext.perform, Frame.bare, ht]
    refine (CallContext.run_keep hacquire (by rintro ⟨⟩)).trans ?_
    unfold callOver
    cases hu : m.unmatched? p.route.path with
    | some name =>
      rw [hu] at hurl
      exact CallContext.run_error hurl
    | none =>
      rw [hu] at hurl
      have hfill : CallContext.perform ⟨m.name, resolve, fault, arguments⟩ [.transport t]
          (Frame.bare (.buildUrl p.route.path bs, boundInputs bs, some FrameType.url)) =
            .ok (.keep (.url (m.address p.route.path arguments))) := hurl
      refine (CallContext.run_keep hfill (by rintro ⟨⟩)).trans ?_
      unfold encodedBody
      rcases Classification.bodyOf_eq_ok hbody with ⟨hb, hsent⟩ | ⟨first, rest, type, hparams, hb, hsent⟩
      · rw [hb, hsent]
        refine (CallContext.run_plain _ _ t _ _ _).trans ?_
        rw [received_eq_settle]
      · obtain ⟨v, vs', rfl⟩ : ∃ v vs', arguments = v :: vs' :=
          List.exists_cons_of_length_pos (by rw [has, hparams]; simp)
        rw [hb, hsent]
        refine (CallContext.run_body _ _ t _ _ _ (v := v) rfl).trans ?_
        simp only [received_eq_settle]
        unfold Codec.encode
        cases Codec.check type v <;> rfl

end Method

/-! ## Clients -/

/-- **A client does what a call is.** Whatever an accepted contract declares, the frames of its
implementation give the result of `Contract.call` and send its requests, for every method name, all
arguments, every resolver, every reader of bodies, any limit to the waiting, and every way transports
may answer. It ends in a timeout exactly if its request was sent and the answer takes longer than the
limit. -/
theorem invoke_eq_call {τ : Type} {c : Contract} {impl : Implementation}
    (h : c.synthesize = .ok impl) (hps : ∀ m ∈ c.methods, m.params.length ≤ 65536)
    (resolve : String → Option τ) (fault : ByteArray → String) (limit : Option Duration)
    (answer : τ → Request → Answer) (method : String) (arguments : List Json) :
    (Client.mk impl resolve fault limit).invoke answer method arguments =
        c.call resolve fault limit answer method arguments ∧
      ∀ name millis,
        ((Client.mk impl resolve fault limit).invoke answer method arguments).result =
            .error (.timeout name millis) ↔
          name = method ∧
            ((Client.mk impl resolve fault limit).invoke answer method arguments).IsLate limit answer
              millis := by
  have heq : (Client.mk impl resolve fault limit).invoke answer method arguments =
      c.call resolve fault limit answer method arguments := by
    obtain ⟨-, hplans⟩ := Contract.synthesize_eq_ok h
    have hname : ∀ (m : Method) (p : Plan), p.IsFor c.name m →
        (m.name == method) = (p.name == method) :=
      fun m p hp => by rw [Plan.name, hp.contract]
    unfold Client.invoke Client.begin? Implementation.plan? Contract.call Contract.routedMethod?
    -- Plans and methods with a route go together, so the first of a name is the same among both.
    rcases find?_forall₂ hname hplans with ⟨hm, hp⟩ | ⟨m, p, hm, hp, hfor⟩
    · rw [hm, hp]
      rfl
    · have hmem : m ∈ c.methods := (List.mem_filter.mp (List.mem_of_find?_eq_some hm)).1
      have hcalled : m.name = method := by simpa using List.find?_some hm
      have hlength : p.chain.arguments.length = m.params.length :=
        (Method.arguments_eq_ok (Method.assemble_shapes hfor.chain).1).length_eq.symm
      rw [hm, hp]
      simp only [bind, Option.bind, hfor.route, pure]
      by_cases has : arguments.length = m.params.length
      · have hrun := Method.run_plan hfor (hps m hmem) has resolve fault limit answer
        simp only [hlength, has, Plan.name, hfor.contract, if_true, ne_eq, not_true_eq_false,
          if_false]
        exact hrun
      · simp [hlength, has]
  rw [heq]
  exact ⟨rfl, fun name millis => c.call_eq_timeout_iff resolve method⟩

/-- An interface whose one method sends its first argument and puts the second into the address. -/
def Contract.renaming : Contract where
  name := "shop::IWidgets"
  methods :=
    [{ name := "rename", params := [⟨"label", "String"⟩, ⟨"id", "i64"⟩],
       returns := some "Future<String>", route := some ⟨"/widgets/{id}", .put⟩ }]

/-- Twenty and a half milliseconds. -/
def Contract.renaming.limit : Duration := ⟨0, ⟨20500000, by decide⟩⟩

/-- A transport that takes twice as long to answer for one widget, and that answers for another with
what is no JSON. -/
def Contract.renaming.answer (_ : Unit) (r : Request) : Answer where
  reply := .response (.new 200 (if r.url = "/widgets/8" then "gear" else "\"gear\"").toUTF8)
  delay := if r.url = "/widgets/9" then .ofMillis 41 else .ofMillis 10

theorem invoke_renaming :
    ∃ impl, Contract.renaming.synthesize = .ok impl ∧
      (∀ m ∈ Contract.renaming.methods, m.params.length ≤ 65536) ∧
      ∃ call : UInt64 → Invocation Unit,
        (∀ id, call id =
          (Client.mk impl (fun _ => some ()) (fun _ => "expected value at line 1 column 1")
            (some Contract.renaming.limit)).invoke Contract.renaming.answer "rename"
              [.string "gear", .ofUInt64 id]) ∧
        (call 7).sent = [((), .of .put "/widgets/7" (some "\"gear\"".toUTF8))] ∧
        (call 7).result.map Json.render = .ok "\"gear\"" ∧
        (call 8).result.map Json.render = .error (.deserialization "rename" "String"
          "response is not valid JSON: expected value at line 1 column 1") ∧
        (call 9).sent = [((), .of .put "/widgets/9" (some "\"gear\"".toUTF8))] ∧
        (call 9).result = .error (.timeout "rename" 20) := by
  have hps : ∀ m ∈ Contract.renaming.methods, m.params.length ≤ 65536 := by decide
  have hok : Contract.renaming.synthesize.toOption.isSome = true := by decide +kernel
  cases h : Contract.renaming.synthesize with
  | error e => exact absurd hok (by simp [h, Except.toOption])
  | ok impl =>
    have hcall := fun id => invoke_eq_call h hps (fun _ => some ())
      (fun _ => "expected value at line 1 column 1") (some Contract.renaming.limit)
      Contract.renaming.answer "rename" [.string "gear", .ofUInt64 id]
    obtain ⟨heq, htimeout⟩ := hcall 9
    have hsent : (Contract.renaming.call (fun _ => some ())
        (fun _ => "expected value at line 1 column 1") (some Contract.renaming.limit)
        Contract.renaming.answer "rename" [.string "gear", .ofUInt64 9]).sent =
        [((), .of .put "/widgets/9" (some "\"gear\"".toUTF8))] := by decide +kernel
    refine ⟨impl, rfl, hps, _, fun _ => rfl, ?_, ?_, ?_, ?_, (htimeout "rename" 20).mpr ⟨rfl, ?_⟩⟩
    · rw [(hcall 7).1]
      decide +kernel
    · rw [(hcall 7).1]
      decide +kernel
    · rw [(hcall 8).1]
      decide +kernel
    · rw [heq]
      exact hsent
    · -- The request was sent, and its answer is the one that comes too late.
      rw [heq]
      refine ⟨_, hsent ▸ List.mem_singleton.mpr rfl, _, rfl, ?_, rfl⟩
      decide +kernel

end ClientSynth

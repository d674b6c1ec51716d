import ClientSynth.Invocation.Interleaving
import ClientSynth.Proofs.Invocation.Inputs

/-!
# `ClientSynth.Proofs.Invocation.Turns` — one call, turn by turn

`Client.invoke` runs a call in one go, and calls that share a transport run by turns. The two meet in
`CallState.remaining`: what is still to come of a call if nobody disturbs it. A turn changes nothing in
that but to move requests from what is to come into the log of the transport (`step?_spec`).

The chain of a method has one frame that invokes the transport, and it returns at its end
(`Frame.IsExchange`). So a call sends one request, or it sends none and fails
(`IsExchange.requests_run`).
-/

set_option autoImplicit false

namespace ClientSynth

/-- What comes of a request to a mock transport for someone who waits as long as it takes. -/
def MockTransport.deliver (m : MockTransport) (_ : Unit) (r : Request) : Delivery :=
  .reply (m.replyTo r)

/-- The transport after it received some requests. -/
def MockTransport.receiveAll (m : MockTransport) (rs : List Request) : MockTransport :=
  { m with requests := m.requests ++ rs }

@[simp]
theorem MockTransport.receiveAll_nil (m : MockTransport) : m.receiveAll [] = m := by
  rw [receiveAll, List.append_nil]

theorem MockTransport.receiveAll_append (m : MockTransport) (rs rs' : List Request) :
    m.receiveAll (rs ++ rs') = (m.receiveAll rs).receiveAll rs' := by
  simp only [receiveAll, List.append_assoc]

/-- The requests that were sent for a call, over whatever transports. -/
def Invocation.requests {τ : Type} (i : Invocation τ) : List Request :=
  i.sent.map (·.2)

@[simp]
theorem Invocation.requests_after {τ : Type} (t : τ) (r : Request) (i : Invocation τ) :
    (i.after t r).requests = r :: i.requests := rfl

theorem Frame.AllFitted.snoc {τ : Type} {slots : List (Slot τ)} {slot : Slot τ} {kind : FrameKind}
    {rest : List Frame} (h : AllFitted (slots.map Slot.source ++ [kind]) rest)
    (hslot : slot.source = kind) : AllFitted ((slots ++ [slot]).map Slot.source) rest := by
  rw [List.map_append, List.map_singleton, hslot]
  exact h

/-! ## The frame that invokes the transport -/

namespace CallContext

variable {τ : Type} (cx : CallContext τ) {slots : List (Slot τ)} {f : Frame} {rest : List Frame}

theorem perform_of_fitted (hkind : f.kind = .invokeTransport)
    (hfit : f.IsFitted (slots.map Slot.source)) : ∃ t r, cx.perform slots f = .ok (.send t r) := by
  obtain ⟨op, inputs, output⟩ := f
  cases op with
  | invokeTransport =>
    obtain ⟨i, slot, hi, hslot, htransport⟩ := Frame.reads_iff.mp hfit.1
    obtain ⟨j, slot', hj, hslot', hrequest⟩ := Frame.reads_iff.mp hfit.2
    cases slot with
    | transport t =>
      cases slot' with
      | request r =>
        refine ⟨t, r, ?_⟩
        show cx.invokeTransport slots _ = _
        rw [invokeTransport, slotInput_eq hi hslot, slotInput_eq hj hslot']
        rfl
      | _ => cases hrequest
    | _ => cases htransport
  | _ => cases hkind

variable (deliver : τ → Request → Delivery)

/-- A run sends no more requests than it has frames that invoke the transport. -/
theorem length_requests_run : ∀ (rest : List Frame) (slots : List (Slot τ)),
    Frame.ReadWithin cx.arguments.length rest →
    (cx.run deliver slots rest).requests.length ≤ rest.countP (·.kind = .invokeTransport)
  | [], _, _ => Nat.zero_le _
  | f :: rest, slots, hread => by
    have hcomes := cx.comes_perform slots (hread f List.mem_cons_self)
    have ih := fun slots' => length_requests_run rest slots' hread.tail
    have hmore : rest.countP (·.kind = .invokeTransport) ≤
        (f :: rest).countP (·.kind = .invokeTransport) := by
      rw [List.countP_cons]
      exact Nat.le_add_right _ _
    generalize hp : cx.perform slots f = p at hcomes
    cases hcomes with
    | refused => simp [run_error hp, Invocation.requests]
    | failed => simp [run_error hp, Invocation.requests]
    | @kept slot =>
      by_cases hk : f.kind = .returnValue
      · simp [run_return hp hk, Invocation.requests]
      · rw [run_keep hp hk]
        exact Nat.le_trans (ih _) hmore
    | @sent t r _ hkind =>
      rw [List.countP_cons, if_pos (by simpa using hkind)]
      cases ha : cx.accept (deliver t r) with
      | error e => simp [cx.run_send_error slots deliver hp ha, Invocation.requests]
      | ok response =>
        rw [cx.run_send_ok slots deliver hp ha, Invocation.requests_after, List.length_cons]
        exact Nat.succ_le_succ (ih _)

/-- A run that comes to the frame which invokes the transport sends a request, and one that does not
has failed before. -/
theorem requests_run_or_error : ∀ (rest : List Frame) (slots : List (Slot τ)),
    Frame.ReadWithin cx.arguments.length rest →
    Frame.AllFitted (slots.map Slot.source) rest →
    (∀ k f, rest[k]? = some f → f.kind = .returnValue → k + 1 = rest.length) →
    (∃ f ∈ rest, f.kind = .invokeTransport) →
    (cx.run deliver slots rest).requests ≠ [] ∨ ∃ e, (cx.run deliver slots rest).result = .error e
  | [], _, _, _, _, hsend => by simp at hsend
  | f :: rest, slots, hread, hfit, hreturn, hsend => by
    by_cases hkind : f.kind = .invokeTransport
    · obtain ⟨t, r, hp⟩ := cx.perform_of_fitted hkind hfit.1
      left
      cases ha : cx.accept (deliver t r) with
      | error e => simp [cx.run_send_error slots deliver hp ha, Invocation.requests]
      | ok response => simp [cx.run_send_ok slots deliver hp ha]
    · obtain ⟨g, hg, hgkind⟩ := hsend
      have hlater : g ∈ rest := (List.mem_cons.mp hg).resolve_left fun h => hkind (h ▸ hgkind)
      have hcomes := cx.comes_perform slots (hread f List.mem_cons_self)
      generalize hp : cx.perform slots f = p at hcomes
      cases hcomes with
      | refused => exact Or.inr ⟨_, by rw [run_error hp]⟩
      | failed => exact Or.inr ⟨_, by rw [run_error hp]⟩
      | sent _ h => exact absurd h hkind
      | kept _ hslot =>
        have hk : f.kind ≠ .returnValue := by
          intro hk
          have hlast := hreturn 0 f rfl hk
          have hpos := List.length_pos_of_mem hlater
          simp only [List.length_cons] at hlast
          omega
        rw [run_keep hp hk]
        refine requests_run_or_error rest _ hread.tail (hfit.2.snoc (hslot hk)) ?_
          ⟨g, hlater, hgkind⟩
        intro k h hh hhk
        simpa using hreturn (k + 1) h hh hhk

end CallContext

/-! ## Chains of methods -/

/-- Frames that send one request at most, and return at their end. -/
structure Frame.IsExchange (count : Nat) (frames : List Frame) : Prop where
  read : Frame.ReadWithin count frames
  fitted : Frame.AllFitted [] frames
  returns : ∀ k f, frames[k]? = some f → f.kind = .returnValue → k + 1 = frames.length
  sends : frames.countP (·.kind = .invokeTransport) = 1

/-- Such frames send one request, or they send none and fail. -/
theorem Frame.IsExchange.requests_run {τ : Type} {cx : CallContext τ} {frames : List Frame}
    (h : Frame.IsExchange cx.arguments.length frames) (deliver : τ → Request → Delivery) :
    (∃ r, (cx.run deliver [] frames).requests = [r]) ∨
      ((cx.run deliver [] frames).requests = [] ∧
        ∃ e, (cx.run deliver [] frames).result = .error e) := by
  have hsend : ∃ f ∈ frames, f.kind = .invokeTransport := by
    have hpos : 0 < frames.countP (·.kind = .invokeTransport) := by rw [h.sends]; decide
    simpa using List.countP_pos_iff.mp hpos
  have hlength := cx.length_requests_run deliver frames [] h.read
  have hfails := cx.requests_run_or_error deliver frames [] h.read h.fitted h.returns hsend
  rw [h.sends] at hlength
  cases hr : (cx.run deliver [] frames).requests with
  | nil => exact Or.inr ⟨rfl, hfails.resolve_left fun hne => hne hr⟩
  | cons r rs =>
    rw [hr] at hlength
    obtain rfl : rs = [] := List.length_eq_zero_iff.mp (by simpa using hlength)
    exact Or.inl ⟨r, rfl⟩

theorem Method.countP_wiring (interface : String) (route : Route) (bs : List Binding)
    (cl : Classification) :
    ((wiring interface route bs cl).map Frame.bare).countP (·.kind = .invokeTransport) = 1 := by
  obtain ⟨body, payload⟩ := cl
  cases body <;> cases payload <;> rfl

theorem Method.isExchange_assemble {interface : String} {m : Method} {route : Route}
    {cl : Classification} {c : Chain} (h : m.assemble interface route cl = .ok c) :
    Frame.IsExchange c.arguments.length c.frames := by
  obtain ⟨-, hissues, -⟩ := assemble_eq_ok h
  obtain ⟨-, -, hshapes⟩ := assemble_shapes h
  obtain ⟨-, hframes⟩ := Issue.all_eq_nil_iff.mp hissues
  refine ⟨Frame.readWithin_of_sound hissues, allFitted_assemble h,
    fun k f hk => (hframes k f hk).2.mp, ?_⟩
  rw [← countP_wiring interface route (bindings (Scope.ofArguments c.arguments) route.path) cl,
    ← hshapes, List.map_map, List.countP_map]
  rfl

/-- A call runs the frames of an exchange, if its client was synthesized. -/
theorem Client.isExchange_begin? {τ : Type} {client : Client τ} {contract : Contract}
    (h : contract.synthesize = .ok client.implementation) {method : String} {arguments : List Json}
    {cx : CallContext τ} {frames : List Frame}
    (hbegin : client.begin? method arguments = .ok (cx, frames)) :
    Frame.IsExchange cx.arguments.length frames := by
  unfold begin? at hbegin
  cases hp : client.implementation.plan? method with
  | none => simp [hp] at hbegin
  | some plan =>
    by_cases hlength : arguments.length = plan.chain.arguments.length
    · simp only [hp, if_pos hlength, Except.ok.injEq, Prod.mk.injEq] at hbegin
      obtain ⟨rfl, rfl⟩ := hbegin
      have hmem : plan ∈ client.implementation.plans := List.mem_of_find?_eq_some hp
      obtain ⟨m, -, hm⟩ := Contract.exists_method h hmem
      show Frame.IsExchange arguments.length _
      rw [hlength]
      exact Method.isExchange_assemble hm.chain
    · simp [hp, hlength] at hbegin

/-! ## Turns -/

namespace CallState

variable (cx : CallContext Unit) {st st' : CallState} {m m' : MockTransport}

/-- What is still to come of a call that nobody disturbs. -/
def remaining (deliver : Unit → Request → Delivery) : CallState → Invocation Unit
  | .ready slots rest => cx.run deliver slots rest
  | .waiting r slots rest =>
    match cx.accept (deliver () r) with
    | .error e => { result := .error e }
    | .ok response => cx.run deliver (slots ++ [.response response]) rest
  | .returned result => { result }

/-- Whether a call can go on without a frame that refuses its inputs. -/
def IsFitted : CallState → Prop
  | .ready slots rest =>
    Frame.ReadWithin cx.arguments.length rest ∧ Frame.AllFitted (slots.map Slot.source) rest
  | .waiting _ slots rest =>
    Frame.ReadWithin cx.arguments.length rest ∧
      Frame.AllFitted (slots.map Slot.source ++ [.invokeTransport]) rest
  | .returned _ => True

/-- Whether the next frame is the one that invokes the transport. -/
def IsAtTransport : CallState → Prop
  | .ready _ (f :: _) => f.kind = .invokeTransport
  | _ => False

/-- More turns than a call can still have. -/
def turnsLeft : CallState → Nat
  | .ready _ rest => 2 * rest.length + 1
  | .waiting _ _ rest => 2 * rest.length + 2
  | .returned _ => 0

section Remaining

variable (deliver : Unit → Request → Delivery) (slots : List (Slot Unit)) (rest : List Frame)

theorem remaining_waiting_error {r : Request} {e : InvocationError}
    (h : cx.accept (deliver () r) = .error e) :
    remaining cx deliver (.waiting r slots rest) = { result := .error e } := by
  simp only [remaining, h]

theorem remaining_waiting_ok {r : Request} {response : Response}
    (h : cx.accept (deliver () r) = .ok response) :
    remaining cx deliver (.waiting r slots rest) =
      cx.run deliver (slots ++ [.response response]) rest := by
  simp only [remaining, h]

theorem remaining_send {f : Frame} {t : Unit} {r : Request}
    (h : cx.perform slots f = .ok (.send t r)) :
    remaining cx deliver (.ready slots (f :: rest)) =
      (remaining cx deliver (.waiting r slots rest)).after t r := by
  cases ha : cx.accept (deliver () r) with
  | error e =>
    rw [remaining_waiting_error cx deliver slots rest ha]
    exact cx.run_send_error slots deliver h ha
  | ok response =>
    rw [remaining_waiting_ok cx deliver slots rest ha]
    exact cx.run_send_ok slots deliver h ha

end Remaining

/-- A call at the frame that invokes the transport has a request to send. -/
theorem requests_of_isAtTransport (deliver : Unit → Request → Delivery) (hfit : st.IsFitted cx)
    (h : st.IsAtTransport) : (st.remaining cx deliver).requests ≠ [] := by
  match st, h with
  | .ready slots (f :: rest), h =>
    obtain ⟨t, r, hp⟩ := cx.perform_of_fitted h hfit.2.1
    rw [remaining_send cx deliver slots rest hp, Invocation.requests_after]
    exact List.cons_ne_nil _ _

theorem step?_eq_none_iff : st.step? cx m = none ↔ ∃ result, st = .returned result := by
  cases st with
  | returned result => exact ⟨fun _ => ⟨result, rfl⟩, fun _ => rfl⟩
  | ready slots rest =>
    refine ⟨fun h => ?_, by rintro ⟨_, ⟨⟩⟩⟩
    cases rest with
    | nil => cases h
    | cons f rest =>
      unfold step? at h
      dsimp only at h
      split at h
      · cases h
      · split at h <;> cases h
      · cases h
  | waiting r slots rest =>
    refine ⟨fun h => ?_, by rintro ⟨_, ⟨⟩⟩⟩
    unfold step? at h
    dsimp only at h
    split at h <;> cases h

/-- What a turn of a call does: some requests that were to come are now in the log, and nothing else
changes in what is to come. -/
structure Spends (deliver : Unit → Request → Delivery) (st : CallState) (rs : List Request)
    (st' : CallState) : Prop where
  result : (st.remaining cx deliver).result = (st'.remaining cx deliver).result
  requests : (st.remaining cx deliver).requests = rs ++ (st'.remaining cx deliver).requests
  fitted : st'.IsFitted cx
  turns : st'.turnsLeft < st.turnsLeft
  transport : rs ≠ [] → st.IsAtTransport

/-- A turn that does not send. -/
theorem Spends.silent {deliver : Unit → Request → Delivery}
    (h : st.remaining cx deliver = st'.remaining cx deliver) (hfit : st'.IsFitted cx)
    (hturns : st'.turnsLeft < st.turnsLeft) : Spends cx deliver st [] st' where
  result := congrArg Invocation.result h
  requests := congrArg Invocation.requests h
  fitted := hfit
  turns := hturns
  transport := fun hne => absurd rfl hne

theorem step?_spec (hfit : st.IsFitted cx) (h : st.step? cx m = some (st', m')) :
    ∃ rs, m' = m.receiveAll rs ∧ Spends cx m.deliver st rs st' := by
  have hsilent : m = m.receiveAll [] := m.receiveAll_nil.symm
  match st with
  | .returned result => cases h
  | .ready slots [] =>
    cases h
    exact ⟨[], hsilent, .silent cx rfl trivial (by simp [turnsLeft])⟩
  | .ready slots (f :: rest) =>
    obtain ⟨hread, hfits, hrest⟩ := hfit
    have hcomes := cx.comes_perform slots (hread f List.mem_cons_self)
    generalize hp : cx.perform slots f = p at hcomes
    cases hcomes with
    | refused hnot => exact absurd hfits hnot
    | failed =>
      simp only [step?, hp] at h
      cases h
      exact ⟨[], hsilent, .silent cx (CallContext.run_error hp) trivial (by simp [turnsLeft])⟩
    | kept _ hslot =>
      by_cases hk : f.kind = .returnValue
      · simp only [step?, hp, if_pos hk] at h
        cases h
        exact ⟨[], hsilent, .silent cx (CallContext.run_return hp hk) trivial (by simp [turnsLeft])⟩
      · simp only [step?, hp, if_neg hk] at h
        cases h
        exact ⟨[], hsilent, .silent cx (CallContext.run_keep hp hk)
          ⟨hread.tail, hrest.snoc (hslot hk)⟩ (by simp [turnsLeft])⟩
    | @sent t r _ hkind =>
      simp only [step?, hp] at h
      cases h
      have hrun := remaining_send cx m.deliver slots rest hp
      exact ⟨[r], rfl,
        { result := by rw [hrun, Invocation.result_after]
          requests := congrArg Invocation.requests hrun
          fitted := ⟨hread.tail, hkind ▸ hrest⟩
          turns := by simp only [turnsLeft, List.length_cons]; omega
          transport := fun _ => hkind }⟩
  | .waiting r slots rest =>
    obtain ⟨hread, hrest⟩ := hfit
    unfold step? at h
    cases ha : cx.accept (.reply (m.replyTo r)) with
    | error e =>
      simp only [ha] at h
      cases h
      have hremains := remaining_waiting_error cx m.deliver slots rest ha
      exact ⟨[], hsilent, .silent cx hremains trivial (by simp [turnsLeft])⟩
    | ok response =>
      simp only [ha] at h
      cases h
      have hremains := remaining_waiting_ok cx m.deliver slots rest ha
      exact ⟨[], hsilent, .silent cx hremains ⟨hread, hrest.snoc rfl⟩ (by simp [turnsLeft])⟩

end CallState

end ClientSynth

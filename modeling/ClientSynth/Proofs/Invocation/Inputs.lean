import ClientSynth.Proofs.Invocation.Refinement

/-!
# `ClientSynth.Proofs.Invocation.Inputs` — when a frame refuses its inputs

A chain without issues reads only what is there, but nothing in it says that a frame reads what it
can use: the frame that builds a request may be given a transport. `Frame.IsFitted` is what the
check leaves out. A slot tells the kind of the frame that left it, so whether a frame is fitted is
settled by the kinds of the frames before it, and a run refuses an input exactly where it comes to a
frame that is not.

> `run_refuses_iff`: a run of a sound chain is refused an input at a frame exactly when that frame
> is not fitted and the frames before it run through; in a chain that was assembled, all are fitted.
-/

set_option autoImplicit false

namespace ClientSynth

/-- The kind of the frames that leave such a slot. -/
def Slot.source {τ : Type} : Slot τ → FrameKind
  | .empty => .returnValue
  | .transport _ => .acquireTransport
  | .url _ => .buildUrl
  | .body _ => .serializeBody
  | .request _ => .buildRequest
  | .response _ => .invokeTransport
  | .value _ => .deserializeResponse

@[simp]
theorem Invocation.result_after {τ : Type} (t : τ) (r : Request) (i : Invocation τ) :
    (i.after t r).result = i.result := rfl

/-! ## Fitted frames -/

namespace Frame

variable (kinds : List FrameKind) (f : Frame)

/-- Whether an input is the output of a frame of some kind, where the frames before have the kinds
`kinds`. -/
def Reads (position : Nat) (kind : FrameKind) : Prop :=
  ∃ j : UInt16, f.inputs[position]? = some (.frame j) ∧ kinds[j.toNat]? = some kind

/-- Whether an input is a value: an argument, or what was read from a response. -/
def ReadsValue (position : Nat) : Prop :=
  (∃ a, f.inputs[position]? = some (.argument a)) ∨ f.Reads kinds position .deserializeResponse

/-- Whether a frame finds in its inputs what it needs. -/
def IsFitted : Prop :=
  match f.op with
  | .acquireTransport _ | .buildUrl _ _ => True
  | .serializeBody _ => f.ReadsValue kinds 0
  | .buildRequest _ hasBody =>
    f.Reads kinds 0 .buildUrl ∧ (hasBody = true → f.Reads kinds 1 .serializeBody)
  | .invokeTransport => f.Reads kinds 0 .acquireTransport ∧ f.Reads kinds 1 .buildRequest
  | .deserializeResponse _ => f.Reads kinds 0 .invokeTransport
  | .returnValue => f.inputs = [] ∨ f.ReadsValue kinds 0

/-- Whether all arguments that some frames read exist. -/
def ReadWithin (count : Nat) (frames : List Frame) : Prop :=
  ∀ f ∈ frames, ∀ a, .argument a ∈ f.inputs → a.toNat < count

theorem ReadWithin.tail {count : Nat} {f : Frame} {rest : List Frame}
    (h : ReadWithin count (f :: rest)) : ReadWithin count rest :=
  fun g hg => h g (List.mem_cons_of_mem f hg)

theorem readWithin_of_sound {count : Nat} {frames : List Frame} (h : Issue.all count frames = []) :
    ReadWithin count frames := by
  obtain ⟨-, hframes⟩ := Issue.all_eq_nil_iff.mp h
  intro f hf a ha
  obtain ⟨k, hk⟩ := List.mem_iff_getElem?.mp hf
  exact (hframes k f hk).1 _ ha

theorem reads_iff {τ : Type} {slots : List (Slot τ)} {f : Frame} {position : Nat}
    {kind : FrameKind} :
    f.Reads (slots.map Slot.source) position kind ↔
      ∃ j slot, f.inputs[position]? = some (.frame j) ∧ slots[j.toNat]? = some slot ∧
        slot.source = kind := by
  simp only [Reads, List.getElem?_map, Option.map_eq_some_iff, exists_and_left]

end Frame

namespace CallContext

variable {τ : Type} (cx : CallContext τ) (slots : List (Slot τ)) {f : Frame}

/-! ## One frame -/

/-- What a frame may come to: it refuses an input if it is not fitted, and otherwise it does what it
is for. -/
inductive Comes (f : Frame) : Except InvocationError (Action τ) → Prop
  | refused {expected : String} (h : ¬ f.IsFitted (slots.map Slot.source)) :
    Comes f (.error (cx.wrongInput slots expected))
  | failed {e : InvocationError} (h : f.IsFitted (slots.map Slot.source))
    (he : ∀ method i expected, e ≠ .frameInput method i expected) : Comes f (.error e)
  | kept {slot : Slot τ} (h : f.IsFitted (slots.map Slot.source))
    (hslot : f.kind ≠ .returnValue → slot.source = f.kind) : Comes f (.ok (.keep slot))
  | sent {t : τ} {r : Request} (h : f.IsFitted (slots.map Slot.source))
    (hkind : f.kind = .invokeTransport) : Comes f (.ok (.send t r))

/-- A frame that goes on with slots of one kind and refuses all others. -/
theorem comes_slotInput {position : Nat} {kind : FrameKind}
    {next : Slot τ → Except InvocationError (Action τ)}
    (hfit : f.IsFitted (slots.map Slot.source) → f.Reads (slots.map Slot.source) position kind)
    (hnext : ∀ slot,
      (slot.source ≠ kind → ∃ expected, next slot = .error (cx.wrongInput slots expected)) ∧
      (f.Reads (slots.map Slot.source) position kind → slot.source = kind →
        cx.Comes slots f (next slot))) :
    cx.Comes slots f (cx.slotInput slots f position >>= next) := by
  simp only [Frame.reads_iff] at hfit hnext
  unfold slotInput
  cases hr : f.inputs[position]? with
  | none => exact .refused (mt hfit (by simp [hr]))
  | some r =>
    cases r with
    | argument a => exact .refused (mt hfit (by simp [hr]))
    | frame j =>
      dsimp only
      cases hs : slots[j.toNat]? with
      | none => exact .refused (mt hfit (by simp [hr, hs]))
      | some slot =>
        show cx.Comes slots f (next slot)
        by_cases hkind : slot.source = kind
        · exact (hnext slot).2 ⟨j, slot, hr, hs, hkind⟩ hkind
        · obtain ⟨expected, he⟩ := (hnext slot).1 hkind
          rw [he]
          exact .refused (mt hfit (by simp [hr, hs, hkind]))

/-- A frame that goes on with a value. -/
theorem comes_valueInput {position : Nat} {next : Json → Except InvocationError (Action τ)}
    (hargs : ∀ a, .argument a ∈ f.inputs → a.toNat < cx.arguments.length)
    (hfit : f.IsFitted (slots.map Slot.source) → f.ReadsValue (slots.map Slot.source) position)
    (hnext : f.ReadsValue (slots.map Slot.source) position → ∀ v, cx.Comes slots f (next v)) :
    cx.Comes slots f (cx.valueInput slots f position >>= next) := by
  simp only [Frame.ReadsValue, Frame.reads_iff] at hfit hnext
  unfold valueInput
  cases hr : f.inputs[position]? with
  | none => exact .refused (mt hfit (by simp [hr]))
  | some r =>
    cases r with
    | argument a =>
      have hlt := hargs a (List.mem_of_getElem? hr)
      simp only [List.getElem?_eq_getElem hlt]
      exact hnext (Or.inl ⟨a, hr⟩) _
    | frame j =>
      dsimp only
      cases hs : slots[j.toNat]? with
      | none => exact .refused (mt hfit (by simp [hr, hs]))
      | some slot =>
        cases slot with
        | value v => exact hnext (Or.inr ⟨j, _, hr, hs, rfl⟩) v
        | _ => exact .refused (mt hfit (by simp [hr, hs, Slot.source]))

variable {inputs : List Ref} {output : Option Variable}

theorem comes_buildRequest (verb : Verb) (hasBody : Bool) :
    cx.Comes slots ⟨.buildRequest verb hasBody, inputs, output⟩
      (cx.buildRequest slots ⟨.buildRequest verb hasBody, inputs, output⟩ verb hasBody) := by
  refine cx.comes_slotInput slots (fun h => h.1) fun slot => ?_
  cases slot with
  | url text =>
    refine ⟨fun h => absurd rfl h, fun hurl _ => ?_⟩
    cases hasBody with
    | false => exact .kept ⟨hurl, by simp⟩ fun _ => rfl
    | true =>
      refine cx.comes_slotInput slots (fun h => h.2 rfl) fun slot => ?_
      cases slot with
      | body bytes =>
        exact ⟨fun h => absurd rfl h, fun hbody _ => .kept ⟨hurl, fun _ => hbody⟩ fun _ => rfl⟩
      | _ => exact ⟨fun _ => ⟨_, rfl⟩, fun _ h => by cases h⟩
  | _ => exact ⟨fun _ => ⟨_, rfl⟩, fun _ h => by cases h⟩

theorem comes_invokeTransport :
    cx.Comes slots ⟨.invokeTransport, inputs, output⟩
      (cx.invokeTransport slots ⟨.invokeTransport, inputs, output⟩) := by
  refine cx.comes_slotInput slots (fun h => h.1) fun slot => ?_
  cases slot with
  | transport t =>
    refine ⟨fun h => absurd rfl h, fun htransport _ => ?_⟩
    refine cx.comes_slotInput slots (fun h => h.2) fun slot => ?_
    cases slot with
    | request r =>
      exact ⟨fun h => absurd rfl h, fun hrequest _ => .sent ⟨htransport, hrequest⟩ rfl⟩
    | _ => exact ⟨fun _ => ⟨_, rfl⟩, fun _ h => by cases h⟩
  | _ => exact ⟨fun _ => ⟨_, rfl⟩, fun _ h => by cases h⟩

theorem comes_deserializeResponse (type : TypeExpr) :
    cx.Comes slots ⟨.deserializeResponse type, inputs, output⟩
      (cx.perform slots ⟨.deserializeResponse type, inputs, output⟩) := by
  refine cx.comes_slotInput slots (fun h => h) fun slot => ?_
  cases slot with
  | response r =>
    refine ⟨fun h => absurd rfl h, fun h _ => ?_⟩
    show cx.Comes slots _ (cx.deserialize type r)
    unfold deserialize
    split
    · exact .kept h fun _ => rfl
    · exact .failed h (by simp)
  | _ => exact ⟨fun _ => ⟨_, rfl⟩, fun _ h => by cases h⟩

/-- A frame comes to nothing else, if the arguments that it reads exist. -/
theorem comes_perform (hargs : ∀ a, .argument a ∈ f.inputs → a.toNat < cx.arguments.length) :
    cx.Comes slots f (cx.perform slots f) := by
  obtain ⟨op, inputs, output⟩ := f
  cases op with
  | acquireTransport interface =>
    unfold perform
    dsimp only
    split
    · exact .kept trivial fun _ => rfl
    · exact .failed trivial (by simp)
  | buildUrl path bindings =>
    show cx.Comes slots _ (cx.buildUrl path bindings)
    unfold buildUrl
    split
    · exact .kept trivial fun _ => rfl
    · exact .failed trivial (by simp)
  | serializeBody type =>
    refine cx.comes_valueInput slots hargs (fun h => h) fun h v => ?_
    unfold serialize
    split
    · exact .kept h fun _ => rfl
    · exact .failed h (by simp)
  | buildRequest verb hasBody => exact cx.comes_buildRequest slots verb hasBody
  | invokeTransport => exact cx.comes_invokeTransport slots
  | deserializeResponse type => exact cx.comes_deserializeResponse slots type
  | returnValue =>
    cases inputs with
    | nil => exact .kept (Or.inl rfl) fun hk => absurd rfl hk
    | cons r rest =>
      refine cx.comes_valueInput slots hargs ?_ fun h v => .kept (Or.inr h) fun hk => absurd rfl hk
      rintro (h | h)
      · cases h
      · exact h

/-! ## All frames -/

variable (deliver : τ → Request → Delivery)

/-- What a run comes to at its next frame, whatever the frames after it are. -/
inductive Moves (f : Frame) : Prop
  | refused (expected : String) (hfit : ¬ f.IsFitted (slots.map Slot.source))
    (hrun : ∀ rest, (cx.run deliver slots (f :: rest)).result =
      .error (cx.wrongInput slots expected))
  /-- The run is over, and a frame that does not return ends it with an error. -/
  | ended (result : Except InvocationError Json) (hfit : f.IsFitted (slots.map Slot.source))
    (hresult : ∀ method i expected, result ≠ .error (.frameInput method i expected))
    (hfailed : f.kind ≠ .returnValue → ∃ e, result = .error e)
    (hrun : ∀ rest, (cx.run deliver slots (f :: rest)).result = result)
  | went (slot : Slot τ) (hfit : f.IsFitted (slots.map Slot.source)) (hslot : slot.source = f.kind)
    (hrun : ∀ rest, (cx.run deliver slots (f :: rest)).result =
      (cx.run deliver (slots ++ [slot]) rest).result)

/-- What is wrong with a delivery is never an input. -/
theorem accept_ne_frameInput {d : Delivery} {e : InvocationError} (h : cx.accept d = .error e)
    (method : String) (i : Nat) (expected : String) : e ≠ .frameInput method i expected := by
  rintro rfl
  unfold accept at h
  split at h
  · cases h
  · cases h
  · split at h <;> cases h

theorem run_send_error {rest : List Frame} {t : τ} {r : Request} {e : InvocationError}
    (h : cx.perform slots f = .ok (.send t r)) (ha : cx.accept (deliver t r) = .error e) :
    cx.run deliver slots (f :: rest) = { result := .error e, sent := [(t, r)] } := by
  simp only [run, h, ha]

theorem run_send_ok {rest : List Frame} {t : τ} {r : Request} {response : Response}
    (h : cx.perform slots f = .ok (.send t r)) (ha : cx.accept (deliver t r) = .ok response) :
    cx.run deliver slots (f :: rest) =
      (cx.run deliver (slots ++ [.response response]) rest).after t r := by
  simp only [run, h, ha]

theorem moves (hargs : ∀ a, .argument a ∈ f.inputs → a.toNat < cx.arguments.length) :
    cx.Moves slots deliver f := by
  have hcomes := cx.comes_perform slots hargs
  generalize hp : cx.perform slots f = p at hcomes
  cases hcomes with
  | refused h => exact .refused _ h fun rest => by rw [run_error hp]
  | failed h he =>
    exact .ended _ h (fun _ _ _ heq => he _ _ _ (Except.error.inj heq)) (fun _ => ⟨_, rfl⟩)
      fun rest => by rw [run_error hp]
  | kept h hslot =>
    rename_i slot
    by_cases hk : f.kind = .returnValue
    · exact .ended (.ok slot.result) h (fun _ _ _ heq => by cases heq) (fun hne => absurd hk hne)
        fun rest => by rw [run_return hp hk]
    · exact .went _ h (hslot hk) fun rest => by rw [run_keep hp hk]
  | sent h hkind =>
    rename_i t r
    cases ha : cx.accept (deliver t r) with
    | error e =>
      exact .ended (.error e) h
        (fun _ _ _ heq => cx.accept_ne_frameInput ha _ _ _ (Except.error.inj heq))
        (fun _ => ⟨e, rfl⟩) fun rest => by rw [cx.run_send_error slots deliver hp ha]
    | ok response =>
      exact .went (.response response) h hkind.symm fun rest => by
        rw [cx.run_send_ok slots deliver hp ha, Invocation.result_after]

/-- A run is refused an input at the first frame that it comes to and that is not fitted. -/
theorem run_refused_iff (method : String) (i : Nat) :
    ∀ (rest : List Frame) (slots : List (Slot τ)),
      Frame.ReadWithin cx.arguments.length rest →
      (∀ k f, rest[k]? = some f → f.kind = .returnValue → k + 1 = rest.length) →
      ((∃ expected, (cx.run deliver slots rest).result = .error (.frameInput method i expected)) ↔
        method = cx.method ∧ ∃ k f, i = slots.length + k ∧ rest[k]? = some f ∧
          ¬ f.IsFitted (slots.map Slot.source ++ (rest.take k).map Frame.kind) ∧
          (cx.run deliver slots (rest.take k)).result = .ok .null)
  | [], slots, _, _ => by simp [run]
  | g :: rest, slots, hargs, hreturn => by
    cases cx.moves slots deliver (hargs g List.mem_cons_self) with
    | refused expected hfit hrun =>
      rw [hrun]
      constructor
      · rintro ⟨expected', heq⟩
        cases heq
        exact ⟨rfl, 0, g, rfl, rfl, by simpa using hfit, rfl⟩
      · rintro ⟨rfl, k, f, rfl, hf, hnot, hok⟩
        cases k with
        | zero => exact ⟨expected, rfl⟩
        | succ k =>
          rw [List.take_succ_cons, hrun] at hok
          cases hok
    | ended result hfit hresult hfailed hrun =>
      rw [hrun]
      constructor
      · rintro ⟨expected, heq⟩
        exact absurd heq (hresult method i expected)
      · rintro ⟨-, k, f, -, hf, hnot, hok⟩
        cases k with
        | zero =>
          cases hf
          exact absurd hfit (by simpa using hnot)
        | succ k =>
          -- A frame comes after `g`, so `g` is not the one that returns.
          have hlater : k + 1 < (g :: rest).length := (List.getElem?_eq_some_iff.mp hf).1
          have hk : g.kind ≠ .returnValue := by
            intro hk
            have hlength := hreturn 0 g rfl hk
            omega
          obtain ⟨e, rfl⟩ := hfailed hk
          rw [List.take_succ_cons, hrun] at hok
          cases hok
    | went slot hfit hslot hrun =>
      have hlater := run_refused_iff method i rest (slots ++ [slot])
        hargs.tail
        (fun k f hf hk => by simpa using hreturn (k + 1) f (by simpa using hf) hk)
      have hkinds : ∀ k, (slots ++ [slot]).map Slot.source ++ (rest.take k).map Frame.kind =
          slots.map Slot.source ++ ((g :: rest).take (k + 1)).map Frame.kind := by
        intro k
        simp [hslot]
      rw [hrun, hlater]
      constructor
      · rintro ⟨hm, k, f, rfl, hf, hnot, hok⟩
        refine ⟨hm, k + 1, f, by simp [Nat.add_assoc, Nat.add_comm 1], by simpa using hf, ?_, ?_⟩
        · rwa [← hkinds]
        · rwa [List.take_succ_cons, hrun]
      · rintro ⟨hm, k, f, rfl, hf, hnot, hok⟩
        cases k with
        | zero =>
          cases hf
          exact absurd hfit (by simpa using hnot)
        | succ k =>
          refine ⟨hm, k, f, by simp [Nat.add_assoc, Nat.add_comm 1], by simpa using hf, ?_, ?_⟩
          · rwa [hkinds]
          · rwa [List.take_succ_cons, hrun] at hok

end CallContext

/-! ## Assembled chains -/

namespace Frame

/-- Whether all frames are fitted, each after the frames of the kinds `kinds` and those before
it. -/
def AllFitted : List FrameKind → List Frame → Prop
  | _, [] => True
  | kinds, f :: rest => f.IsFitted kinds ∧ AllFitted (kinds ++ [f.kind]) rest

theorem AllFitted.isFitted {f : Frame} :
    ∀ {frames : List Frame} {kinds : List FrameKind} {i : Nat}, AllFitted kinds frames →
      frames[i]? = some f → f.IsFitted (kinds ++ (frames.take i).map Frame.kind)
  | g :: rest, kinds, 0, h, hf => by
    obtain rfl : g = f := by simpa using hf
    simpa using h.1
  | g :: rest, kinds, i + 1, h, hf => by
    have hlater := h.2.isFitted (i := i) (by simpa using hf)
    simpa using hlater

/-- Names and types of outputs do not matter to what frames read. -/
theorem allFitted_shapes :
    ∀ (frames : List Frame) (kinds : List FrameKind),
      AllFitted kinds ((frames.map Frame.shape).map Frame.bare) ↔ AllFitted kinds frames
  | [], _ => Iff.rfl
  | f :: rest, kinds => and_congr Iff.rfl (allFitted_shapes rest (kinds ++ [f.kind]))

end Frame

/-- The frames of a wiring are fitted. -/
theorem Method.allFitted_wiring (interface : String) (route : Route) (bs : List Binding)
    (cl : Classification) :
    Frame.AllFitted [] ((wiring interface route bs cl).map Frame.bare) := by
  obtain ⟨body, payload⟩ := cl
  cases body <;> cases payload <;>
    simp [wiring, exchange, ending, responseFrame, Frame.AllFitted, Frame.IsFitted,
      Frame.ReadsValue, Frame.Reads, Frame.bare, Frame.kind, Op.kind]

theorem Method.allFitted_assemble {interface : String} {m : Method} {route : Route}
    {cl : Classification} {c : Chain} (h : m.assemble interface route cl = .ok c) :
    Frame.AllFitted [] c.frames := by
  obtain ⟨-, -, hshapes⟩ := assemble_shapes h
  rw [← Frame.allFitted_shapes, hshapes]
  exact allFitted_wiring ..

namespace CallContext

variable {τ : Type} (cx : CallContext τ) (deliver : τ → Request → Delivery)

/-- The same for a sound chain, which reads only arguments that exist and returns at its end. -/
theorem run_refused_iff_of_sound {frames : List Frame}
    (hsound : Issue.all cx.arguments.length frames = []) (method : String) (i : Nat) :
    (∃ expected, (cx.run deliver [] frames).result = .error (.frameInput method i expected)) ↔
      method = cx.method ∧ ∃ f, frames[i]? = some f ∧
        ¬ f.IsFitted ((frames.take i).map Frame.kind) ∧
        (cx.run deliver [] (frames.take i)).result = .ok .null := by
  obtain ⟨-, hframes⟩ := Issue.all_eq_nil_iff.mp hsound
  have hrefused := cx.run_refused_iff deliver method i frames [] (Frame.readWithin_of_sound hsound)
    fun k f hk => ((hframes k f hk).2).mp
  simpa using hrefused

/-- **An input is refused exactly where a run comes to a frame that is not fitted.** The check of a
chain does not see to that, but the assembly of chains does. -/
theorem run_refuses_iff :
    (∀ frames, Issue.all cx.arguments.length frames = [] → ∀ method i,
      ((∃ expected, (cx.run deliver [] frames).result = .error (.frameInput method i expected)) ↔
        method = cx.method ∧ ∃ f, frames[i]? = some f ∧
          ¬ f.IsFitted ((frames.take i).map Frame.kind) ∧
          (cx.run deliver [] (frames.take i)).result = .ok .null)) ∧
    ∀ interface m route cl c, Method.assemble interface m route cl = .ok c →
      c.arguments.length = cx.arguments.length → ∀ method i expected,
        (cx.run deliver [] c.frames).result ≠ .error (.frameInput method i expected) := by
  refine ⟨fun frames hsound => cx.run_refused_iff_of_sound deliver hsound, ?_⟩
  intro interface m route cl c hc hlength method i expected hrefused
  obtain ⟨-, hissues, -⟩ := Method.assemble_eq_ok hc
  obtain ⟨-, -, hshapes⟩ := Method.assemble_shapes hc
  have hfitted : Frame.AllFitted [] c.frames := by
    rw [← Frame.allFitted_shapes, hshapes]
    exact Method.allFitted_wiring ..
  have hsound : Issue.all cx.arguments.length c.frames = [] := hlength ▸ hissues
  obtain ⟨-, f, hf, hnot, -⟩ :=
    (cx.run_refused_iff_of_sound deliver hsound method i).mp ⟨expected, hrefused⟩
  exact hnot (by simpa using hfitted.isFitted hf)

/-- Frames that make a request of a transport instead of an address. -/
def misread : List Frame :=
  [⟨.acquireTransport "I", [], some ⟨"transport", FrameType.transport⟩⟩,
   ⟨.buildRequest .get false, [.frame 0], some ⟨"request", FrameType.request⟩⟩,
   ⟨.returnValue, [], none⟩]

/-- A call without arguments, where every interface has a transport. -/
def plainCall : CallContext Unit := ⟨"ping", fun _ => some (), fun _ => "malformed", []⟩

/-- Nothing is wrong with `misread`, and yet a run of it is refused an input. -/
theorem misread_refused :
    Issue.all plainCall.arguments.length misread = [] ∧
      (plainCall.run (fun _ _ => .timeout .zero) [] misread).result =
        .error (.frameInput "ping" 1 "a url") :=
  ⟨by decide, rfl⟩

theorem run_refuses_iff_misread :
    Issue.all plainCall.arguments.length misread = [] ∧
      (∃ expected, (plainCall.run (fun _ _ => .timeout .zero) [] misread).result =
        .error (.frameInput "ping" 1 expected)) ∧
      ∃ c, Method.assemble "I" { name := "ping" } ⟨"/ping", .get⟩ ⟨none, none⟩ = .ok c ∧
        c.arguments.length = plainCall.arguments.length ∧
        (plainCall.run (fun _ _ => .timeout .zero) [] c.frames).result ≠
          .error (.frameInput "ping" 1 "a url") := by
  have hsound : Issue.all plainCall.arguments.length misread = [] := by decide
  have hnot : ¬ (Frame.mk (.buildRequest .get false) [.frame 0]
      (some ⟨"request", FrameType.request⟩)).IsFitted [.acquireTransport] := by
    rintro ⟨⟨j, hj, hkind⟩, -⟩
    cases hj
    cases hkind
  obtain ⟨hmisread, hassembled⟩ := plainCall.run_refuses_iff fun _ _ => .timeout .zero
  refine ⟨hsound, (hmisread misread hsound "ping" 1).mpr ⟨rfl, _, rfl, hnot, rfl⟩, ?_⟩
  have hok : (Method.assemble "I" { name := "ping" } ⟨"/ping", .get⟩
      ⟨none, none⟩).toOption.isSome = true := by decide +kernel
  cases hc : Method.assemble "I" { name := "ping" } ⟨"/ping", .get⟩ ⟨none, none⟩ with
  | error e => exact absurd hok (by simp [hc, Except.toOption])
  | ok c =>
    have hargs : c.arguments.length = plainCall.arguments.length :=
      congrArg List.length (Except.ok.inj (Method.assemble_shapes hc).1).symm
    exact ⟨c, rfl, hargs, hassembled _ _ _ _ c hc hargs "ping" 1 "a url"⟩

end CallContext

end ClientSynth

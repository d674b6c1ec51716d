import ClientSynth.Proofs.Invocation.Turns

/-!
# `ClientSynth.Proofs.Invocation.Concurrent` — calls that share a transport

Calls that take turns have one thing in common, the log of their transport, and none of them reads it.
So they do not disturb each other:

> `run_undisturbed`: whatever the schedule is, every call comes to the end, with the result that it has
> alone, and the log has one request for each call that came to the frame which sends.

What a schedule keeps is put down once, as a relation between the calls before and after
(`Calls.Follows`); one turn has it (`follows_turn`), and it is reflexive and transitive.
-/

set_option autoImplicit false

namespace ClientSynth

/-! ## Calls before they begin -/

/-- A call that is asked for: which method, with which arguments, and through which client. -/
structure Call where
  client : Client Unit
  method : String
  arguments : List Json

namespace Call

/-- Whether the client of a call was synthesized, and waits for a response as long as it takes. -/
structure IsSynthesized (c : Call) : Prop where
  implementation : ∃ contract, Contract.synthesize contract = .ok c.client.implementation
  limit : c.client.limit = none

def start (c : Call) : RunningCall :=
  .start c.client c.method c.arguments

/-- What a call comes to when it is the only one. -/
def alone (c : Call) (m : MockTransport) : Invocation Unit :=
  c.client.invoke (fun _ r => m.answer r) c.method c.arguments

end Call

/-- What is still to come of a call that nobody disturbs. -/
def RunningCall.remaining (call : RunningCall) (m : MockTransport) : Invocation Unit :=
  call.state.remaining call.context m.deliver

namespace Call

variable {c : Call} (h : c.IsSynthesized) (m : MockTransport)
include h

theorem remaining_start : c.start.remaining m = c.alone m := by
  unfold start alone RunningCall.start Client.invoke
  rw [h.limit]
  cases c.client.begin? c.method c.arguments <;> rfl

theorem isFitted_start : c.start.state.IsFitted c.start.context := by
  obtain ⟨contract, hcontract⟩ := h.implementation
  unfold start RunningCall.start
  cases hb : c.client.begin? c.method c.arguments with
  | error e => trivial
  | ok begun =>
    have hexchange := Client.isExchange_begin? hcontract hb
    exact ⟨hexchange.read, hexchange.fitted⟩

/-- A call sends one request, or it sends none and fails. -/
theorem requests_alone :
    (∃ r, (c.alone m).requests = [r]) ∨
      ((c.alone m).requests = [] ∧ ∃ e, (c.alone m).result = .error e) := by
  obtain ⟨contract, hcontract⟩ := h.implementation
  rw [← remaining_start h m]
  unfold start RunningCall.start
  cases hb : c.client.begin? c.method c.arguments with
  | error e => exact Or.inr ⟨rfl, e, rfl⟩
  | ok begun => exact (Client.isExchange_begin? hcontract hb).requests_run m.deliver

end Call

/-! ## Calls that take turns -/

namespace Calls

/-- Some calls before their first turn. -/
def start (calls : List Call) (m : MockTransport) : Calls :=
  ⟨calls.map Call.start, m⟩

/-- The requests that are still to come. -/
def outstanding (s : Calls) : List Request :=
  s.calls.flatMap fun call => (call.remaining s.transport).requests

/-- More turns than some calls can still have together. -/
def turnsOf : List RunningCall → Nat
  | [] => 0
  | call :: calls => call.state.turnsLeft + turnsOf calls

def turnsLeft (s : Calls) : Nat :=
  turnsOf s.calls

def AllFitted (s : Calls) : Prop :=
  ∀ call ∈ s.calls, call.state.IsFitted call.context

/-- Whether a call comes to the frame that invokes the transport, at some point of a schedule. -/
def Reaches (s : Calls) (schedule : List Nat) (i : Nat) : Prop :=
  ∃ before s' call, before <+: schedule ∧ s.run? before = some s' ∧ s'.calls[i]? = some call ∧
    call.state.IsAtTransport

variable {s s' : Calls} {i : Nat}

/-! ### One turn -/

theorem turn?_eq_some_iff :
    s.turn? i = some s' ↔
      ∃ call state transport, s.calls[i]? = some call ∧
        call.state.step? call.context s.transport = some (state, transport) ∧
        s' = ⟨s.calls.set i { call with state }, transport⟩ := by
  unfold turn?
  simp only [Option.bind_eq_bind, Option.bind_eq_some_iff, Option.pure_def, Option.some.injEq,
    Prod.exists, eq_comm (b := s')]
  constructor
  · rintro ⟨call, hcall, state, transport, hstep, hs⟩
    exact ⟨call, state, transport, hcall, hstep, hs⟩
  · rintro ⟨call, state, transport, hcall, hstep, hs⟩
    exact ⟨call, hcall, state, transport, hstep, hs⟩

theorem turn?_eq_none_iff :
    s.turn? i = none ↔
      ∀ call, s.calls[i]? = some call → ∃ result, call.state = .returned result := by
  unfold turn?
  cases hc : s.calls[i]? with
  | none => simp
  | some call =>
    simp only [Option.bind_eq_bind, Option.bind_some, Option.some.injEq, forall_eq']
    rw [← CallState.step?_eq_none_iff call.context (m := s.transport)]
    cases call.state.step? call.context s.transport <;> simp

/-- The calls are over when none of them has a turn. -/
theorem isOver_iff : s.IsOver ↔ ∀ i, s.turn? i = none := by
  simp only [turn?_eq_none_iff]
  constructor
  · intro h i call hc
    exact h call (List.mem_of_getElem? hc)
  · intro h call hcall
    obtain ⟨i, hi⟩ := List.mem_iff_getElem?.mp hcall
    exact h i call hi

theorem turn?_spec (hfit : s.AllFitted) (h : s.turn? i = some s') :
    ∃ call state rs, s.calls[i]? = some call ∧
      s' = ⟨s.calls.set i { call with state }, s.transport.receiveAll rs⟩ ∧
      call.state.Spends call.context s.transport.deliver rs state := by
  obtain ⟨call, state, transport, hcall, hstep, rfl⟩ := turn?_eq_some_iff.mp h
  obtain ⟨rs, rfl, hspends⟩ :=
    CallState.step?_spec call.context (hfit call (List.mem_of_getElem? hcall)) hstep
  exact ⟨call, state, rs, hcall, rfl, hspends⟩

/-! ### Many turns -/

/-- What stays while calls have their turns: what each of them comes to, and all requests together,
those that are to come and those that are in the log. -/
structure Follows (s s' : Calls) : Prop where
  length : s'.calls.length = s.calls.length
  calls : ∀ (i : Nat) (call : RunningCall), s.calls[i]? = some call →
    ∃ call' : RunningCall, s'.calls[i]? = some call' ∧
    (call'.remaining s'.transport).result = (call.remaining s.transport).result ∧
    (call'.remaining s'.transport).requests <:+ (call.remaining s.transport).requests
  transport : ∃ log, s'.transport = s.transport.receiveAll log ∧
    s.outstanding.Perm (log ++ s'.outstanding)
  fitted : s'.AllFitted

theorem Follows.refl (hfit : s.AllFitted) : s.Follows s where
  length := rfl
  calls _ call hc := ⟨call, hc, rfl, List.suffix_rfl⟩
  transport := ⟨[], s.transport.receiveAll_nil.symm, List.Perm.refl _⟩
  fitted := hfit

theorem Follows.trans {t : Calls} (h : s.Follows s') (h' : s'.Follows t) : s.Follows t where
  length := h'.length.trans h.length
  calls i call hc := by
    obtain ⟨call', hc', hresult, hrequests⟩ := h.calls i call hc
    obtain ⟨call'', hc'', hresult', hrequests'⟩ := h'.calls i call' hc'
    exact ⟨call'', hc'', hresult'.trans hresult, hrequests'.trans hrequests⟩
  transport := by
    obtain ⟨log, hlog, hperm⟩ := h.transport
    obtain ⟨log', hlog', hperm'⟩ := h'.transport
    refine ⟨log ++ log', by rw [hlog', hlog, MockTransport.receiveAll_append], ?_⟩
    rw [List.append_assoc]
    exact hperm.trans (hperm'.append_left log)
  fitted := h'.fitted

theorem turnsOf_eq_total : ∀ calls, turnsOf calls = total (·.state.turnsLeft) calls
  | [] => rfl
  | _ :: calls => congrArg (_ + ·) (turnsOf_eq_total calls)

theorem turnsOf_set {call call' : RunningCall}
    (h : call'.state.turnsLeft < call.state.turnsLeft) {calls : List RunningCall} {i : Nat}
    (hcall : calls[i]? = some call) : turnsOf (calls.set i call') < turnsOf calls := by
  rw [turnsOf_eq_total, turnsOf_eq_total]
  exact total_set_lt (x := call) (y := call') h hcall

theorem follows_turn (hfit : s.AllFitted) (h : s.turn? i = some s') :
    s.Follows s' ∧ s'.turnsLeft < s.turnsLeft := by
  obtain ⟨call, state, rs, hcall, rfl, hspends⟩ := turn?_spec hfit h
  refine ⟨⟨List.length_set, fun j other hother => ?_, ⟨rs, rfl, ?_⟩, fun other hother => ?_⟩, ?_⟩
  · rw [getElem?_set_of_getElem? hcall]
    split
    · rename_i hj
      obtain rfl : call = other := by simpa [hj, hcall] using hother
      exact ⟨_, rfl, hspends.result.symm, rs, hspends.requests.symm⟩
    · exact ⟨other, hother, rfl, List.suffix_rfl⟩
  · exact perm_flatMap_set (f := fun c : RunningCall => (c.remaining s.transport).requests)
      (y := { call with state }) hspends.requests hcall
  · rcases List.mem_or_eq_of_mem_set hother with hother | rfl
    · exact hfit other hother
    · exact hspends.fitted
  · exact turnsOf_set hspends.turns hcall

theorem follows_run : ∀ (schedule : List Nat) {s : Calls}, s.AllFitted →
    s.run? schedule = some s' →
    s.Follows s' ∧ schedule.length + s'.turnsLeft ≤ s.turnsLeft
  | [], s, hfit, h => by
    cases h
    exact ⟨.refl hfit, by simp⟩
  | i :: is, s, hfit, h => by
    obtain ⟨s₁, hturn, hrun⟩ := Option.bind_eq_some_iff.mp h
    obtain ⟨hfollows, hturns⟩ := follows_turn hfit hturn
    obtain ⟨hfollows', hturns'⟩ := follows_run is hfollows.fitted hrun
    refine ⟨hfollows.trans hfollows', ?_⟩
    rw [List.length_cons]
    omega

/-! ### Coming to the transport -/

theorem reaches_of_isAtTransport {call : RunningCall} (hcall : s.calls[i]? = some call)
    (h : call.state.IsAtTransport) (schedule : List Nat) : s.Reaches schedule i :=
  ⟨[], s, call, List.nil_prefix, rfl, hcall, h⟩

theorem Reaches.cons {s₁ : Calls} {j : Nat} {schedule : List Nat} (hturn : s.turn? j = some s₁)
    (h : s₁.Reaches schedule i) : s.Reaches (j :: schedule) i := by
  obtain ⟨before, s', call, hbefore, hrun, hcall, hat⟩ := h
  refine ⟨j :: before, s', call, List.cons_prefix_cons.mpr ⟨rfl, hbefore⟩, ?_, hcall, hat⟩
  rw [run?, hturn]
  exact hrun

/-- A call that comes to the transport has a request to send. -/
theorem Reaches.requests_ne_nil (hfit : s.AllFitted) {schedule : List Nat} (h : s.Reaches schedule i)
    {call : RunningCall} (hcall : s.calls[i]? = some call) :
    (call.remaining s.transport).requests ≠ [] := by
  obtain ⟨before, s', call', -, hrun, hcall', hat⟩ := h
  obtain ⟨hfollows, -⟩ := follows_run before hfit hrun
  obtain ⟨call'', hcall'', -, hsuffix⟩ := hfollows.calls i call hcall
  obtain rfl : call' = call'' := Option.some.inj (hcall'.symm.trans hcall'')
  have hfit' := hfollows.fitted call' (List.mem_of_getElem? hcall')
  have hne := CallState.requests_of_isAtTransport call'.context s'.transport.deliver hfit' hat
  intro hnil
  rw [hnil] at hsuffix
  exact hne (List.suffix_nil.mp hsuffix)

/-- A call whose requests are all in the log has come to the transport, if it had any. -/
theorem reaches_of_requests_ne_nil {call' : RunningCall} : ∀ (schedule : List Nat) {s : Calls},
    s.AllFitted → s.run? schedule = some s' →
    ∀ {call : RunningCall}, s.calls[i]? = some call → s'.calls[i]? = some call' →
      (call'.remaining s'.transport).requests = [] → (call.remaining s.transport).requests ≠ [] →
      s.Reaches schedule i
  | [], s, _, h, call, hcall, hcall', hnil, hne => by
    cases h
    obtain rfl : call = call' := Option.some.inj (hcall.symm.trans hcall')
    exact absurd hnil hne
  | j :: is, s, hfit, h, call, hcall, hcall', hnil, hne => by
    obtain ⟨s₁, hturn, hrun⟩ := Option.bind_eq_some_iff.mp h
    obtain ⟨turner, state, rs, hturner, rfl, hspends⟩ := turn?_spec hfit hturn
    have hfit₁ := (follows_turn hfit hturn).1.fitted
    have hnext := getElem?_set_of_getElem? hturner { turner with state } i
    by_cases hij : i = j
    · subst hij
      obtain rfl : turner = call := Option.some.inj (hturner.symm.trans hcall)
      by_cases hrs : rs = []
      · -- The turn sent nothing, so all that the call has to send is still to come.
        rw [if_pos rfl] at hnext
        have hne' : (CallState.remaining turner.context s.transport.deliver state).requests ≠ [] := by
          have hrequests := hspends.requests
          rw [hrs, List.nil_append] at hrequests
          rw [← hrequests]
          exact hne
        exact .cons hturn (reaches_of_requests_ne_nil is hfit₁ hrun hnext hcall' hnil hne')
      · exact reaches_of_isAtTransport hcall (hspends.transport hrs) _
    · rw [if_neg hij, hcall] at hnext
      exact .cons hturn (reaches_of_requests_ne_nil is hfit₁ hrun hnext hcall' hnil hne)

/-! ### From the beginning to the end -/

section Undisturbed

variable {calls : List Call} (hcalls : ∀ c ∈ calls, c.IsSynthesized) (m : MockTransport)

theorem getElem?_start {c : Call} (hc : calls[i]? = some c) :
    (start calls m).calls[i]? = some c.start := by
  rw [start, List.getElem?_map, hc, Option.map_some]

theorem outstanding_of_isOver (h : s.IsOver) : s.outstanding = [] := by
  rw [outstanding, List.flatMap_eq_nil_iff]
  intro call hcall
  obtain ⟨result, hresult⟩ := h call hcall
  rw [RunningCall.remaining, hresult]
  rfl

include hcalls

theorem allFitted_start : (start calls m).AllFitted := by
  intro call hcall
  obtain ⟨c, hc, rfl⟩ := List.mem_map.mp hcall
  exact Call.isFitted_start (hcalls c hc)

theorem outstanding_start :
    (start calls m).outstanding = calls.flatMap fun c => (c.alone m).requests := by
  rw [outstanding, start, List.flatMap_map]
  exact List.flatMap_congr fun c hc => by rw [Call.remaining_start (hcalls c hc)]

variable {m} {schedule : List Nat} (hrun : (start calls m).run? schedule = some s) (hover : s.IsOver)
include hrun hover

/-- A call that is over came to what it comes to alone. -/
theorem returned_alone {c : Call} (hc : calls[i]? = some c) :
    ∃ call, s.calls[i]? = some call ∧ call.state = .returned (c.alone m).result := by
  obtain ⟨hfollows, -⟩ := follows_run schedule (allFitted_start hcalls m) hrun
  obtain ⟨call, hcall, hresult, -⟩ := hfollows.calls i _ (getElem?_start m hc)
  obtain ⟨result, hstate⟩ := hover call (List.mem_of_getElem? hcall)
  have hstart : c.start.remaining m = c.alone m :=
    Call.remaining_start (hcalls c (List.mem_of_getElem? hc)) m
  refine ⟨call, hcall, ?_⟩
  rw [RunningCall.remaining, hstate] at hresult
  rw [hstate, ← hstart]
  exact congrArg _ hresult

theorem states_of_isOver :
    s.calls.map (·.state) = calls.map fun c => .returned (c.alone m).result := by
  obtain ⟨hfollows, -⟩ := follows_run schedule (allFitted_start hcalls m) hrun
  refine List.ext_getElem? fun i => ?_
  rw [List.getElem?_map, List.getElem?_map]
  cases hc : calls[i]? with
  | some c =>
    obtain ⟨call, hcall, hstate⟩ := returned_alone hcalls hrun hover hc
    rw [hcall, Option.map_some, hstate, Option.map_some]
  | none =>
    have hlength : s.calls.length = calls.length := by
      rw [hfollows.length, start, List.length_map]
    rw [List.getElem?_eq_none_iff] at hc
    rw [List.getElem?_eq_none (by omega)]
    rfl

theorem log_of_isOver :
    ∃ log, s.transport = m.receiveAll log ∧
      log.Perm (calls.flatMap fun c => (c.alone m).requests) := by
  obtain ⟨hfollows, -⟩ := follows_run schedule (allFitted_start hcalls m) hrun
  obtain ⟨log, hlog, hperm⟩ := hfollows.transport
  rw [outstanding_start hcalls, outstanding_of_isOver hover, List.append_nil] at hperm
  exact ⟨log, hlog, hperm.symm⟩

theorem reaches_iff {c : Call} (hc : calls[i]? = some c) :
    (start calls m).Reaches schedule i ↔ (c.alone m).requests ≠ [] := by
  have hfit := allFitted_start hcalls m
  have hstart : c.start.remaining m = c.alone m :=
    Call.remaining_start (hcalls c (List.mem_of_getElem? hc)) m
  rw [← hstart]
  constructor
  · intro h
    exact h.requests_ne_nil hfit (getElem?_start m hc)
  · intro hne
    obtain ⟨call, hcall, hstate⟩ := returned_alone hcalls hrun hover hc
    have hnil : (call.remaining s.transport).requests = [] := by
      rw [RunningCall.remaining, hstate]
      rfl
    exact reaches_of_requests_ne_nil schedule hfit hrun (getElem?_start m hc) hcall hnil hne

end Undisturbed

/-- **Calls that share a transport do not disturb each other.** Let any number of calls of synthesized
clients take turns in any order. No order goes on for ever, and one that cannot go on has come to the
end of all calls. Then each call has returned what it returns alone; what the transport has in its log
besides what was there are the requests that the calls send alone, in some order; and these are one
request for a call that came to the frame which invokes the transport, and none for a call that did
not, which has failed. -/
theorem run_undisturbed {calls : List Call} (hcalls : ∀ c ∈ calls, c.IsSynthesized)
    (m : MockTransport) :
    (∃ bound, ∀ schedule s, (start calls m).run? schedule = some s → schedule.length ≤ bound) ∧
    ∀ schedule s, (start calls m).run? schedule = some s →
      (s.IsOver ↔ ∀ i, s.turn? i = none) ∧
      (s.IsOver →
        (s.calls.map (·.state) = calls.map fun c => .returned (c.alone m).result) ∧
        (∃ log, s.transport = m.receiveAll log ∧
          log.Perm (calls.flatMap fun c => (c.alone m).requests)) ∧
        ∀ i c, calls[i]? = some c →
          ((start calls m).Reaches schedule i ∧ ∃ r, (c.alone m).requests = [r]) ∨
          (¬ (start calls m).Reaches schedule i ∧ (c.alone m).requests = [] ∧
            ∃ e, (c.alone m).result = .error e)) := by
  refine ⟨⟨(start calls m).turnsLeft, fun schedule s hrun => ?_⟩, fun schedule s hrun =>
    ⟨isOver_iff, fun hover => ⟨states_of_isOver hcalls hrun hover, log_of_isOver hcalls hrun hover,
      fun i c hc => ?_⟩⟩⟩
  · have hturns := (follows_run schedule (allFitted_start hcalls m) hrun).2
    omega
  · rw [reaches_iff hcalls hrun hover hc]
    have hc' := hcalls c (List.mem_of_getElem? hc)
    rcases Call.requests_alone hc' m with ⟨r, hr⟩ | ⟨hnil, hfailed⟩
    · exact Or.inl ⟨by rw [hr]; exact List.cons_ne_nil _ _, r, hr⟩
    · exact Or.inr ⟨fun hne => hne hnil, hnil, hfailed⟩

/-- A call that sends its label, and one whose label is not a string and cannot be sent. -/
def renamings (impl : Implementation) : List Call :=
  let client : Client Unit := ⟨impl, fun _ => some (), fun _ => "malformed", none⟩
  [⟨client, "rename", [.string "gear", .ofUInt64 7]⟩, ⟨client, "rename", [.bool true, .ofUInt64 8]⟩]

theorem run_undisturbed_renamings :
    ∃ impl, Contract.renaming.synthesize = .ok impl ∧
      (∀ c ∈ renamings impl, c.IsSynthesized) ∧
      ∀ schedule s, (start (renamings impl) {}).run? schedule = some s → s.IsOver →
        s.transport.requests = [.of .put "/widgets/7" (some "\"gear\"".toUTF8)] := by
  have hok : (Contract.renaming.synthesize.toOption.map fun impl =>
      (renamings impl).flatMap fun c => (c.alone {}).requests) =
        some [.of .put "/widgets/7" (some "\"gear\"".toUTF8)] := by decide +kernel
  cases h : Contract.renaming.synthesize with
  | error e => simp [h, Except.toOption] at hok
  | ok impl =>
    have hcalls : ∀ c ∈ renamings impl, c.IsSynthesized := by
      intro c hc
      rcases List.mem_pair.mp hc with rfl | rfl <;> exact ⟨⟨_, h⟩, rfl⟩
    refine ⟨impl, rfl, hcalls, fun schedule s hrun hover => ?_⟩
    obtain ⟨-, ⟨log, hlog, hperm⟩, -⟩ := ((run_undisturbed hcalls {}).2 schedule s hrun).2 hover
    have hsent : ((renamings impl).flatMap fun c => (c.alone {}).requests) = _ :=
      Option.some.inj (h ▸ hok)
    rw [hsent, List.perm_singleton] at hperm
    rw [hlog, hperm]
    rfl

end Calls

end ClientSynth

import ClientSynth.Invocation.Run
import ClientSynth.Proofs.Route.Filling

/-!
# `ClientSynth.Proofs.Invocation.DirectCall` — a call in one go

What a call of a method comes to, said over the contract: no plan, no classification, no frames and no
positions, and nothing that frames make of a value, a body or a delivery. A call is a row of questions,
and the first one with a bad answer is the error of the call:

1. is there a method of this name with a route?
2. does it take that many arguments?
3. has the interface a transport?
4. is there a parameter for each placeholder?
5. if the first argument is sent, is it of the type of the first parameter?
6. did the answer to the request come in time?
7. is it a response, did the request succeed, and is its body of the type that was promised?

Only a call that comes to the sixth question has sent a request, and it has sent one.
-/

set_option autoImplicit false

namespace ClientSynth

/-- The text that an argument puts into an address: a string as it is, nothing for `null`, and JSON
for everything else. -/
def Json.addressText : Json → String
  | .string s => s
  | .null => ""
  | v => v.render

/-- A request for an address, which asks for JSON and says so if it carries JSON itself. -/
def Request.of (verb : Verb) (url : String) : Option ByteArray → Request
  | none => { verb, url, headers := [.accept], body := none }
  | some bytes => { verb, url, headers := [.accept, .contentType], body := some bytes }

namespace Method

/-! ## What goes out -/

/-- The argument for the first parameter of a name. -/
def argument? (m : Method) (arguments : List Json) (name : String) : Option Json :=
  ((m.params.zip arguments).find? (·.1.name == name)).map (·.2)

/-- The leftmost placeholder of a path that no parameter is named after. -/
def unmatched? (m : Method) (path : String) : Option String :=
  (Template.names path).find? fun name => m.params.all (·.name != name)

/-- The path with the texts of arguments in the places of the placeholders of their names. -/
def address (m : Method) (path : String) (arguments : List Json) : String :=
  Template.substituted path fun name => ((m.argument? arguments name).map Json.addressText).getD ""

/-- The type that the first argument is sent as: that of the first parameter, unless some segment of
the path between slashes is exactly the placeholder of that. -/
def sentAs? (m : Method) (path : String) : Option TypeExpr :=
  match m.params with
  | [] => none
  | first :: _ =>
    if Piece.token first.name.toList ∈ Text.splitAt '/' path.toList then none
    else TypeExpr.ofString? first.type

/-- The body of a request, if it has one. -/
def encodedBody (m : Method) (path : String) (arguments : List Json) :
    Except InvocationError (Option ByteArray) :=
  match m.sentAs? path, arguments with
  | some type, v :: _ =>
    match Codec.check type v with
    | none => .ok (some v.render.toUTF8)
    | some wrong => .error (.serialization m.name type.display wrong.message)
  | _, _ => .ok none

/-! ## What comes back -/

/-- The type of what a call returns: the only argument of the return type, unless that is `()`. -/
def promised? (m : Method) : Option TypeExpr :=
  ((m.returns.bind TypeExpr.ofString?).bind (·.singleArg?)).filter (· ≠ .unit)

/-- What a body is read as, by a reader that says by `fault` why one is not JSON. -/
def decodedBody (m : Method) (fault : ByteArray → String) (bytes : ByteArray) :
    Except InvocationError Json :=
  match m.promised? with
  | none => .ok .null
  | some type =>
    match Codec.valueOf? bytes with
    | none =>
      .error (.deserialization m.name type.display ("response is not valid JSON: " ++ fault bytes))
    | some v =>
      match Codec.check type v with
      | none => .ok v
      | some wrong => .error (.deserialization m.name type.display wrong.message)

/-- What a call comes to for a reply that it has waited for. -/
def replied (m : Method) (fault : ByteArray → String) : Reply → Except InvocationError Json
  | .failure message => .error (.transport m.name message)
  | .response r =>
    if 200 ≤ r.status ∧ r.status < 300 then m.decodedBody fault r.body
    else .error (.status m.name r.status r.bodyText)

/-- What a call comes to after its request. An answer is late if it takes longer than the limit, and the
error shows the whole milliseconds of that, as far as 64 bits go. -/
def settle (m : Method) (fault : ByteArray → String) (limit : Option Duration) (a : Answer) :
    Except InvocationError Json :=
  match limit.filter fun l => l.inNanos < a.delay.inNanos with
  | some l => .error (.timeout m.name (l.inNanos / 1000000).toUInt64)
  | none => m.replied fault a.reply

/-! ## Calls -/

variable {τ : Type}

/-- A call of a method with a route, over the transport of its interface. -/
def callOver (m : Method) (route : Route) (t : τ) (fault : ByteArray → String)
    (limit : Option Duration) (answer : τ → Request → Answer) (arguments : List Json) :
    Invocation τ :=
  match m.unmatched? route.path with
  | some name => { result := .error (.unmatchedPlaceholder m.name name route.path) }
  | none =>
    match m.encodedBody route.path arguments with
    | .error e => { result := .error e }
    | .ok body =>
      let r := Request.of route.verb (m.address route.path arguments) body
      { result := m.settle fault limit (answer t r), sent := [(t, r)] }

end Method

namespace Contract

variable {τ : Type}

/-- The first method of a name that has a route, with its route. -/
def routedMethod? (c : Contract) (name : String) : Option (Method × Route) := do
  let m ← c.routed.find? (·.name == name)
  return (m, ← m.route)

/-- A call of a method of an interface. -/
def call (c : Contract) (resolve : String → Option τ) (fault : ByteArray → String)
    (limit : Option Duration) (answer : τ → Request → Answer) (method : String)
    (arguments : List Json) : Invocation τ :=
  match c.routedMethod? method with
  | none => { result := .error (.unknownMethod method) }
  | some (m, route) =>
    if arguments.length ≠ m.params.length then
      { result := .error (.argumentCount method m.params.length arguments.length) }
    else
      match resolve c.name with
      | none => { result := .error (.missingTransport c.name) }
      | some t => m.callOver route t fault limit answer arguments

end Contract

/-! ## Timeouts -/

section Timeout

variable {τ : Type} {fault : ByteArray → String} {limit : Option Duration}
  {answer : τ → Request → Answer} {arguments : List Json} {name : String} {millis : UInt64}

/-- Whether a request was sent whose answer takes longer than a limit of so many whole milliseconds. -/
def Invocation.IsLate (i : Invocation τ) (limit : Option Duration) (answer : τ → Request → Answer)
    (millis : UInt64) : Prop :=
  ∃ q ∈ i.sent, ∃ l, limit = some l ∧ l.inNanos < (answer q.1 q.2).delay.inNanos ∧
    millis = (l.inNanos / 1000000).toUInt64

theorem Invocation.not_isLate_of_unsent {result : Except InvocationError Json} :
    ¬ ({ result } : Invocation τ).IsLate limit answer millis := by
  rintro ⟨q, hq, -⟩
  exact absurd hq List.not_mem_nil

namespace Method

variable {m : Method}

theorem encodedBody_ne_timeout (path : String) :
    m.encodedBody path arguments ≠ .error (.timeout name millis) := by
  unfold encodedBody
  split
  · split <;> simp
  · simp

theorem decodedBody_ne_timeout (bytes : ByteArray) :
    m.decodedBody fault bytes ≠ .error (.timeout name millis) := by
  unfold decodedBody
  split
  · simp
  · split
    · simp
    · split <;> simp

theorem replied_ne_timeout (r : Reply) : m.replied fault r ≠ .error (.timeout name millis) := by
  cases r with
  | failure message => simp [replied]
  | response r =>
    show (if 200 ≤ r.status ∧ r.status < 300 then _ else _) ≠ _
    split
    · exact m.decodedBody_ne_timeout r.body
    · simp

theorem settle_eq_timeout_iff {a : Answer} :
    m.settle fault limit a = .error (.timeout name millis) ↔
      name = m.name ∧ ∃ l, limit = some l ∧ l.inNanos < a.delay.inNanos ∧
        millis = (l.inNanos / 1000000).toUInt64 := by
  unfold settle
  cases limit with
  | none => exact ⟨fun h => absurd h (m.replied_ne_timeout a.reply), fun ⟨_, _, h, _⟩ => nomatch h⟩
  | some l =>
    by_cases hlate : l.inNanos < a.delay.inNanos
    · rw [Option.filter_some_pos (by simpa using hlate)]
      constructor
      · intro h
        cases h
        exact ⟨rfl, l, rfl, hlate, rfl⟩
      · rintro ⟨rfl, l', hl, -, rfl⟩
        cases hl
        rfl
    · rw [Option.filter_some_neg (by simpa using hlate)]
      constructor
      · exact fun h => absurd h (m.replied_ne_timeout a.reply)
      · rintro ⟨-, l', hl, hlate', -⟩
        cases hl
        exact absurd hlate' hlate

theorem callOver_eq_timeout_iff {route : Route} {t : τ} :
    (m.callOver route t fault limit answer arguments).result = .error (.timeout name millis) ↔
      name = m.name ∧
        (m.callOver route t fault limit answer arguments).IsLate limit answer millis := by
  unfold callOver
  split
  · simp [Invocation.not_isLate_of_unsent]
  · have hbody : m.encodedBody route.path arguments ≠ .error (.timeout name millis) :=
      m.encodedBody_ne_timeout route.path
    split
    · rename_i e he
      rw [he] at hbody
      simpa [Invocation.not_isLate_of_unsent] using hbody
    · simp [settle_eq_timeout_iff, Invocation.IsLate]

end Method

/-- **A call times out if its request was sent and the answer comes too late**, and never else. -/
theorem Contract.call_eq_timeout_iff (c : Contract) (resolve : String → Option τ) (method : String) :
    (c.call resolve fault limit answer method arguments).result = .error (.timeout name millis) ↔
      name = method ∧
        (c.call resolve fault limit answer method arguments).IsLate limit answer millis := by
  unfold call
  cases h : c.routedMethod? method with
  | none => simp [Invocation.not_isLate_of_unsent]
  | some called =>
    obtain ⟨m, route⟩ := called
    have hname : m.name = method := by
      obtain ⟨m', hm', hroute⟩ := Option.bind_eq_some_iff.mp h
      obtain ⟨route', -, hpair⟩ := Option.bind_eq_some_iff.mp hroute
      cases hpair
      simpa using List.find?_some hm'
    dsimp only
    split
    · simp [Invocation.not_isLate_of_unsent]
    · split
      · simp [Invocation.not_isLate_of_unsent]
      · rw [Method.callOver_eq_timeout_iff, hname]

end Timeout

end ClientSynth

import ClientSynth.Contract.Basic
import ClientSynth.Json.Draft
import ClientSynth.Json.Found

/-!
# `ClientSynth.Contract.Document` — contracts in JSON

A contract document is read from left to right, and what is reported is the first thing wrong with
it, be it the text or a value in it. The records of a contract are objects, whose unknown members are
passed over, or arrays of their fields in order, the optional ones at the end left out at will.

Reading goes by the draft of the text, so a mistake that comes before the place where the text breaks
off is still found.
-/

set_option autoImplicit false

namespace ClientSynth

/-- What is wrong with a contract document. -/
inductive DocumentError where
  | malformed
  /-- A value of one kind where another is asked for. -/
  | wrongType (found expected : String)
  /-- A whole number that does not fit. -/
  | outOfRange (n : Int) (expected : String)
  /-- A record without a field it needs. -/
  | missing (field : String)
  /-- A record that gives a field twice. -/
  | repeated (field : String)
  /-- An array of fields that ends before the one at `position`. -/
  | tooShort (position : Nat) (expected : String)
  /-- A word that is no verb. -/
  | unknownVerb (word : String)
  deriving DecidableEq, Repr

namespace DocumentError

/-- The error in words; for a malformed text those of its reader are all there is. -/
def message : DocumentError → String
  | malformed => ""
  | wrongType found expected => Json.wrongType found expected
  | outOfRange n expected => Json.outOfRange n expected
  | missing field => "missing field `" ++ field ++ "`"
  | repeated field => "duplicate field `" ++ field ++ "`"
  | tooShort position expected =>
    "invalid length " ++ toString position ++ ", expected " ++ expected
  | unknownVerb word =>
    "unknown variant `" ++ word ++ "`, expected one of " ++
      ", ".intercalate (Verb.all.flatMap fun v => ["`" ++ v.word ++ "`", "`" ++ v.lowerWord ++ "`"])

end DocumentError

namespace Document

open Json (Draft Ending Token)

/-! ## Values of the wrong kind -/

/-- The error for a draft where something else is asked for. A draft without a value is malformed
whatever is asked for. -/
def mismatch (expected : String) : Draft → DocumentError
  | .null => .wrongType "null" expected
  | .bool b => .wrongType (Json.boolFound b) expected
  | .number (some n) => .wrongType (Json.numberFound n) expected
  | .string (some s) => .wrongType (Json.stringFound s) expected
  | .array _ _ => .wrongType "sequence" expected
  | .object _ _ => .wrongType "map" expected
  | .number none | .string none | .broken => .malformed

/-- The error for a token that begins something else than is asked for. -/
def tokenMismatch (expected : String) : Option Token → DocumentError
  | some .null => .wrongType "null" expected
  | some (.bool b) => .wrongType (Json.boolFound b) expected
  | some (.number (some n)) => .wrongType (Json.numberFound n) expected
  | some (.string (some s)) => .wrongType (Json.stringFound s) expected
  | some .openBracket => .wrongType "sequence" expected
  | some .openBrace => .wrongType "map" expected
  | _ => .malformed

/-! ## Simple values -/

/-- A string. -/
def text : Draft → Except DocumentError String
  | .string (some s) => .ok s
  | d => .error (mismatch "a string" d)

/-- A whole number of 32 bits. -/
def word32 : Draft → Except DocumentError UInt32
  | .number (some (.whole n)) =>
    if 0 ≤ n.val ∧ n.val < UInt32.size then .ok n.val.toNat.toUInt32 else .error (.outOfRange n.val "u32")
  | d => .error (mismatch "u32" d)

/-- A value that may be `null`. -/
def optional {α : Type} (decode : Draft → Except DocumentError α) :
    Draft → Except DocumentError (Option α)
  | .null => .ok none
  | d => some <$> decode d

/-- The items of an array in order. -/
def list {α : Type} (decode : Draft → Except DocumentError α) :
    Draft → Except DocumentError (List α)
  | .array items ending => do
    let xs ← items.mapM decode
    if ending = .closed then return xs else throw .malformed
  | d => .error (mismatch "a sequence" d)

/-- A value that is passed over. -/
def skip (d : Draft) : Except DocumentError Unit :=
  if d.isWhole then .ok () else .error .malformed

/-! ## Fields -/

/-- The value of a field that is met in an object, if it was not given before. -/
def field {α : Type} (name : String) (before : Option α) (decode : Draft → Except DocumentError α)
    (d : Draft) : Except DocumentError (Option α) :=
  if before.isSome then .error (.repeated name) else some <$> decode d

/-- The value of a field that a record needs. -/
def required {α : Type} (name : String) : Option α → Except DocumentError α
  | some a => .ok a
  | none => .error (.missing name)

/-- The members of an object, put one by one into a record that is read. -/
def record {ρ : Type} (empty : ρ) (add : ρ → String → Draft → Except DocumentError ρ)
    (members : List (Option String × Draft)) (ending : Ending) : Except DocumentError ρ := do
  let r ← members.foldlM (fun r (key, d) =>
    match key with
    | some key => add r key d
    | none => throw .malformed) empty
  if ending = .closed then return r else throw .malformed

/-- The item of an array at a position, if the array is that long. -/
def item {α : Type} (items : List Draft) (ending : Ending) (position : Nat)
    (decode : Draft → Except DocumentError α) : Except DocumentError (Option α) :=
  match items[position]? with
  | some d => some <$> decode d
  | none => if ending = .closed then .ok none else .error .malformed

/-- The item of an array at a position that the array must have. -/
def requiredItem {α : Type} (items : List Draft) (ending : Ending) (position : Nat)
    (expected : String) (decode : Draft → Except DocumentError α) : Except DocumentError α := do
  match ← item items ending position decode with
  | some a => return a
  | none => throw (.tooShort position expected)

/-- The end of an array that is read as a record of `count` fields. -/
def noMore (items : List Draft) (ending : Ending) (count : Nat) : Except DocumentError Unit :=
  if items.length ≤ count ∧ ending = .closed then .ok () else .error .malformed

/-! ## The records of a contract -/

/-- A parameter whose fields are being read. -/
structure ParamFields where
  name : Option String := none
  type : Option String := none

def ParamFields.add (p : ParamFields) (key : String) (d : Draft) :
    Except DocumentError ParamFields :=
  match key with
  | "name" => do return { p with name := ← field key p.name text d }
  | "type" => do return { p with type := ← field key p.type text d }
  | _ => do skip d; return p

def param : Draft → Except DocumentError Param
  | .object members ending => do
    let p ← record {} ParamFields.add members ending
    return ⟨← required "name" p.name, ← required "type" p.type⟩
  | .array items ending => do
    let expected := "struct Param with 2 elements"
    let name ← requiredItem items ending 0 expected text
    let type ← requiredItem items ending 1 expected text
    noMore items ending 2
    return ⟨name, type⟩
  | d => .error (mismatch "struct Param" d)

/-- A verb: its word, or an object whose one member is the word with the value `null`. -/
def verb : Draft → Except DocumentError Verb
  | .string (some word) => ofWord word
  | .object ((some word, d) :: rest) ending => do
    let v ← ofWord word
    match d with
    | .null => if rest.isEmpty ∧ ending = .closed then return v else throw .malformed
    | d => throw (mismatch "unit" d)
  | .object [] (.broken found) => .error (tokenMismatch "variant identifier" found)
  | _ => .error .malformed
where
  ofWord (word : String) : Except DocumentError Verb :=
    match Verb.ofWord? word with
    | some v => .ok v
    | none => .error (.unknownVerb word)

structure RouteFields where
  path : Option String := none
  verb : Option Verb := none

def RouteFields.add (r : RouteFields) (key : String) (d : Draft) :
    Except DocumentError RouteFields :=
  match key with
  | "path" => do return { r with path := ← field key r.path text d }
  | "method" => do return { r with verb := ← field key r.verb Document.verb d }
  | _ => do skip d; return r

def route : Draft → Except DocumentError Route
  | .object members ending => do
    let r ← record {} RouteFields.add members ending
    return ⟨← required "path" r.path, ← required "method" r.verb⟩
  | .array items ending => do
    let expected := "struct Route with 2 elements"
    let path ← requiredItem items ending 0 expected text
    let verb ← requiredItem items ending 1 expected verb
    noMore items ending 2
    return ⟨path, verb⟩
  | d => .error (mismatch "struct Route" d)

structure MethodFields where
  name : Option String := none
  params : Option (List Param) := none
  returns : Option (Option String) := none
  route : Option (Option Route) := none

def MethodFields.add (m : MethodFields) (key : String) (d : Draft) :
    Except DocumentError MethodFields :=
  match key with
  | "name" => do return { m with name := ← field key m.name text d }
  | "params" => do return { m with params := ← field key m.params (list param) d }
  | "returns" => do return { m with returns := ← field key m.returns (optional text) d }
  | "route" => do return { m with route := ← field key m.route (optional Document.route) d }
  | _ => do skip d; return m

def method : Draft → Except DocumentError Method
  | .object members ending => do
    let m ← record {} MethodFields.add members ending
    return {
      name := ← required "name" m.name
      params := m.params.getD []
      returns := m.returns.join
      route := m.route.join }
  | .array items ending => do
    let name ← requiredItem items ending 0 "struct MethodContract with 4 elements" text
    let params ← item items ending 1 (list param)
    let returns ← item items ending 2 (optional text)
    let route ← item items ending 3 (optional route)
    noMore items ending 4
    return ⟨name, params.getD [], returns.join, route.join⟩
  | d => .error (mismatch "struct MethodContract" d)

structure ContractFields where
  version : Option UInt32 := none
  name : Option String := none
  description : Option (Option String) := none
  methods : Option (List Method) := none

def ContractFields.add (c : ContractFields) (key : String) (d : Draft) :
    Except DocumentError ContractFields :=
  match key with
  | "version" => do return { c with version := ← field key c.version word32 d }
  | "name" => do return { c with name := ← field key c.name text d }
  | "description" => do
    return { c with description := ← field key c.description (optional text) d }
  | "methods" => do return { c with methods := ← field key c.methods (list method) d }
  | _ => do skip d; return c

def contract : Draft → Except DocumentError Contract
  | .object members ending => do
    let c ← record {} ContractFields.add members ending
    return {
      version := c.version.getD Contract.supportedVersion
      name := ← required "name" c.name
      description := c.description.join
      methods := c.methods.getD [] }
  | .array items ending => do
    let version ← item items ending 0 word32
    let name ← requiredItem items ending 1 "struct InterfaceContract with 4 elements" text
    let description ← item items ending 2 (optional text)
    let methods ← item items ending 3 (list method)
    noMore items ending 4
    return ⟨version.getD Contract.supportedVersion, name, description.join, methods.getD []⟩
  | d => .error (mismatch "struct InterfaceContract" d)

/-! ## Documents -/

/-- What a whole text denotes, when a value is read by `decode` and nothing may follow it. -/
def whole {α : Type} (decode : Draft → Except DocumentError α) (cs : List Char) :
    Except DocumentError α := do
  let (d, atEnd) := Draft.ofChars cs
  let a ← decode d
  if atEnd then return a else throw .malformed

end Document

/-- The contract that a JSON text denotes. -/
def Contract.ofJsonText (s : String) : Except DocumentError Contract :=
  Document.whole Document.contract s.toList

/-- The verb that a JSON text denotes. -/
def Verb.ofJsonText (s : String) : Except DocumentError Verb :=
  Document.whole Document.verb s.toList

end ClientSynth

import ClientSynth.Json.Printer
import ClientSynth.Route.Verb
import ClientSynth.Text.Segments
import ClientSynth.Text.Utf8

/-!
# `ClientSynth.Http.Message` — requests and responses

A request asks for JSON, and says so when it carries JSON itself. Headers keep the order in which they
were added and may repeat; looking one up ignores the case of ASCII letters and finds the first.
-/

set_option autoImplicit false

namespace ClientSynth

/-- A header: its name and its value. -/
abbrev Header := String × String

namespace Header

def json : String := "application/json"

def accept : Header := ("Accept", json)

def contentType : Header := ("Content-Type", json)

/-- The value of the first header of a name. -/
def find? (headers : List Header) (name : String) : Option String :=
  (headers.find? fun h => h.1.toLower == name.toLower).map (·.2)

end Header

/-- Bodies are compared byte by byte. -/
local instance decidableEqBytes : DecidableEq ByteArray := ByteArray.instDecidableEq

/-! ## Requests -/

/-- A request. The address may be relative to a base that the transport knows. -/
structure Request where
  verb : Verb
  url : String
  headers : List Header
  body : Option ByteArray
  deriving DecidableEq

namespace Request

/-- A request without a body. -/
def new (verb : Verb) (url : String) : Request :=
  { verb, url, headers := [.accept], body := none }

/-- The request with a body of JSON. -/
def withJsonBody (r : Request) (body : ByteArray) : Request :=
  { r with headers := r.headers ++ [.contentType], body := some body }

def withHeader (r : Request) (name value : String) : Request :=
  { r with headers := r.headers ++ [(name, value)] }

def header? (r : Request) (name : String) : Option String :=
  Header.find? r.headers name

/-- The address without what follows the first question mark. -/
def path (r : Request) : String :=
  String.ofList (r.url.toList.takeWhile (· ≠ '?'))

/-- The request as a JSON document, its body as a list of bytes. -/
def toJson (r : Request) : Json :=
  .object (
    [("method", .string r.verb.word),
     ("url", .string r.url),
     ("headers", .array (r.headers.map fun h => .array [.string h.1, .string h.2]))] ++
    (match r.body with
      | some bytes => [("body", .array (bytes.data.toList.map fun b => .ofUInt64 b.toUInt64))]
      | none => []))

/-- The header that a JSON document holds. -/
def headerOf? : Json → Option Header
  | .array [.string name, .string value] => some (name, value)
  | _ => none

/-- The byte that a JSON document holds. -/
def byteOf? : Json → Option UInt8
  | .number (.whole n) => if 0 ≤ n.val ∧ n.val < 256 then some n.val.toNat.toUInt8 else none
  | _ => none

/-- The body that a JSON document holds, if it holds one at all. -/
def bodyOf? : Option Json → Option (Option ByteArray)
  | some (.array items) => (items.mapM byteOf?).map fun bytes => some ⟨bytes.toArray⟩
  | some .null | none => some none
  | some _ => none

/-- The request that a JSON document holds. -/
def ofJson? (j : Json) : Option Request := do
  let .string word ← j.member? "method" | none
  let .string url ← j.member? "url" | none
  let .array headers ← j.member? "headers" | none
  return {
    verb := ← Verb.ofWord? word
    url
    headers := ← headers.mapM headerOf?
    body := ← bodyOf? (j.member? "body") }

end Request

/-! ## Responses -/

structure Response where
  status : UInt16
  headers : List Header
  body : ByteArray
  deriving DecidableEq

namespace Response

def new (status : UInt16) (body : ByteArray) : Response :=
  { status, headers := [], body }

/-- A response that carries a JSON value. -/
def json (status : UInt16) (v : Json) : Response :=
  { status, headers := [.contentType], body := v.render.toUTF8 }

/-- Whether the status says that the request succeeded. -/
def isSuccess (r : Response) : Bool :=
  200 ≤ r.status && r.status < 300

def header? (r : Response) (name : String) : Option String :=
  Header.find? r.headers name

/-- The body as text, whatever bytes it has. -/
def bodyText (r : Response) : String :=
  String.ofList (Text.decodeLossy r.body.data.toList)

end Response

end ClientSynth

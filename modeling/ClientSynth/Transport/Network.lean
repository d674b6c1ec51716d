import ClientSynth.Json.Printer
import ClientSynth.Transport.Config
import ClientSynth.Transport.Delivery

/-!
# `ClientSynth.Transport.Network` — requests as far as the wire

Before a connection can be made, an address is made absolute and looked at: it needs a scheme, and one
that can be spoken. Requests that pass are not sent from here, since the library opens no connections,
and count as failures too.
-/

set_option autoImplicit false

namespace ClientSynth

namespace Address

/-! ## Schemes -/

/-- Whether a character may stand in a scheme after the first. -/
def isSchemeChar (c : Char) : Bool :=
  c.isAlphanum || c == '+' || c == '-' || c == '.'

/-- The scheme of an address, in lower case, and what follows its colon. -/
def scheme? (cs : List Char) : Option (List Char × List Char) :=
  match cs with
  | [] => none
  | c :: _ =>
    if c.isAlpha then
      match cs.dropWhile isSchemeChar with
      | ':' :: rest => some ((cs.takeWhile isSchemeChar).map (·.toLower), rest)
      | _ => none
    else none

/-- The schemes whose addresses always have a host and a path. -/
def hostSchemes : List String := ["http", "https", "ws", "wss", "ftp"]

/-- The schemes that requests can be sent over. -/
def spokenSchemes : List String := ["http", "https"]

/-! ## Written form -/

/-- A byte as a percent sign and two digits. -/
def percentEncoded (b : UInt8) : List Char :=
  ['%', (Json.hexDigit (b.toNat / 16)).toUpper, (Json.hexDigit (b.toNat % 16)).toUpper]

/-- The characters of a path that stand for themselves: those of printable ASCII but a few. -/
def isPlain (c : Char) : Bool :=
  '!'.toNat ≤ c.toNat && c.toNat ≤ '~'.toNat &&
    c ∉ ['"', '<', '>', '\x60', '\x7b', '\x7d']

/-- A text with percent signs for what does not stand for itself. -/
def encoded (cs : List Char) : List Char :=
  cs.flatMap fun c =>
    if isPlain c then [c] else (String.singleton c).toUTF8.data.toList.flatMap percentEncoded

/-- An address in its written form: a host in lower case, a path even if it is empty, and percent
signs. -/
def written (scheme rest : List Char) : List Char :=
  if hostSchemes.contains (String.ofList scheme) then
    let afterSlashes := rest.dropWhile fun c => c == '/' || c == '\\'
    let host := afterSlashes.takeWhile fun c => c ∉ ['/', '\\', '?', '#']
    let path := afterSlashes.drop host.length
    scheme ++ "://".toList ++ host.map (·.toLower) ++
      (if path.head? == some '/' then encoded path else '/' :: encoded path)
  else scheme ++ ':' :: encoded rest

end Address

namespace Network

/-- Why a request cannot be sent to an absolute address. -/
def refusal (url : String) : String :=
  match Address.scheme? url.toList with
  | none => "Bad URL: failed to parse URL: RelativeUrlWithoutBase: relative URL without a base"
  | some (scheme, rest) =>
    String.ofList (Address.written scheme rest) ++
      if Address.spokenSchemes.contains (String.ofList scheme) then
        ": Connection Failed: no network"
      else ": Unknown Scheme: unknown scheme '" ++ String.ofList scheme ++ "'"

/-- What becomes of a request under the settings of a transport. -/
def answer (config : TransportConfig) (r : Request) : Answer :=
  let url := config.resolveUrl r.url
  { reply := .failure ("HTTP " ++ r.verb.word ++ " " ++ url ++ " failed: " ++ refusal url) }

end Network

end ClientSynth

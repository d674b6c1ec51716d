import ClientSynth.Contract.Basic
import ClientSynth.Digest.Sha256
import ClientSynth.Json.Printer

/-!
# `ClientSynth.Contract.Canonical` — the canonical form of a contract

Every contract has one canonical JSON text: fields in the order of their declaration, absent optional
fields left out, verbs in upper case. Its SHA-256 digest is the fingerprint, by which two contracts
are told apart without comparing them.
-/

set_option autoImplicit false

namespace ClientSynth

def Param.toJson (p : Param) : Json :=
  .object [("name", .string p.name), ("type", .string p.type)]

def Route.toJson (r : Route) : Json :=
  .object [("path", .string r.path), ("method", .string r.verb.word)]

/-- A member that is left out when there is no value. -/
def Json.optional {α : Type} (key : String) (toJson : α → Json) : Option α → List (String × Json)
  | none => []
  | some a => [(key, toJson a)]

def Method.toJson (m : Method) : Json :=
  .object <|
    [("name", .string m.name), ("params", .array (m.params.map Param.toJson))] ++
    Json.optional "returns" Json.string m.returns ++ Json.optional "route" Route.toJson m.route

namespace Contract

def toJson (c : Contract) : Json :=
  .object <|
    [("version", .ofUInt64 c.version.toUInt64), ("name", .string c.name)] ++
    Json.optional "description" Json.string c.description ++
    [("methods", .array (c.methods.map Method.toJson))]

/-- The canonical text. -/
def canonical (c : Contract) : String :=
  c.toJson.render

/-- The fingerprint: the digest of the canonical text. -/
def fingerprint (c : Contract) : String :=
  Sha256.ofText c.canonical

end Contract

end ClientSynth

import ClientSynth.Codec.Shape
import ClientSynth.Json.Draft
import ClientSynth.Json.Printer

/-!
# `ClientSynth.Codec.Basic` — bodies of requests and responses

Bodies are JSON in UTF-8. A value is encoded only if it is of its declared type, and what is decoded is
checked against the type that was promised. A body of nothing but blanks stands for `null`. What is
wrong with a body that is not JSON is in the words of its reader.
-/

set_option autoImplicit false

namespace ClientSynth

/-- Why a body cannot be decoded. -/
inductive DecodeError where
  /-- It is not JSON, for a fault in the words of its reader. -/
  | malformed (fault : String)
  /-- The value is not of the type. -/
  | mismatch (m : Mismatch)
  deriving DecidableEq

def DecodeError.message : DecodeError → String
  | malformed fault => "response is not valid JSON: " ++ fault
  | mismatch m => m.message

namespace Codec

/-- The body for a value of a type. -/
def encode (type : TypeExpr) (v : Json) : Except Mismatch ByteArray :=
  match check type v with
  | some m => .error m
  | none => .ok v.render.toUTF8

/-- Whether a byte is a blank of ASCII: a space, a tab, a line feed, a form feed or a return. -/
def isBlankByte (b : UInt8) : Bool :=
  b == 0x20 || b == 0x09 || b == 0x0A || b == 0x0C || b == 0x0D

/-- The value that some bytes are the text of. -/
def valueOf? (bytes : ByteArray) : Option Json :=
  if bytes.data.toList.all isBlankByte then some .null
  else String.fromUTF8? bytes >>= Json.ofString?

/-- The value of a type that a body holds. The reader says by `fault` what is wrong with a body that is
not JSON. -/
def decode (fault : ByteArray → String) (type : TypeExpr) (bytes : ByteArray) :
    Except DecodeError Json :=
  match valueOf? bytes with
  | none => .error (.malformed (fault bytes))
  | some v =>
    match check type v with
    | some m => .error (.mismatch m)
    | none => .ok v

end Codec

end ClientSynth

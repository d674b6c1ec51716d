import ClientSynth.Contract.Document

/-!
# `ClientSynth.Remarks` — what readers say of a text

Which texts are JSON or YAML, and what is the first thing wrong with a document, are rules of this
library. How it is put into words that a text is malformed, and how a place in a text is named, is not:
that is left to whoever does the reading, and errors pass it on as it is. Nothing is decided by it.
-/

set_option autoImplicit false

namespace ClientSynth

/-- What a reader of JSON says. -/
structure JsonRemarks where
  /-- What is wrong with a malformed text, and where. -/
  fault : String → String := fun _ => "malformed JSON"
  /-- Where the value stands that is wrong in a text, as the end of a message. -/
  place : String → String := fun _ => ""

namespace JsonRemarks

/-- What a reader adds to an error in a text. -/
def remark (remarks : JsonRemarks) (text : String) : DocumentError → String
  | .malformed => remarks.fault text
  | _ => remarks.place text

end JsonRemarks

/-- What the readers of all texts say. -/
structure Remarks where
  contract : JsonRemarks := {}
  yaml : String → String := fun _ => "malformed YAML"
  arguments : JsonRemarks := {}
  /-- On a body that is not JSON. -/
  body : ByteArray → String := fun _ => "malformed JSON"

end ClientSynth

import ClientSynth.Text.Segments

/-!
# `ClientSynth.Synthesis.TypeName` — names of implementations

The implementation of an interface is named after the last segment of its identity: without the `I`
that marks an interface, if it has the mark, and with a suffix if it has not. Interfaces of different
names may so come to one type name.
-/

set_option autoImplicit false

namespace ClientSynth.TypeName

/-- What is appended to a name without the mark of an interface. -/
def suffix : String := "Implementation"

/-- The implementation's name for the last segment of an identity. A mark is an `I` before a capital
letter of ASCII. -/
def ofSegment (segment : List Char) : List Char :=
  match segment with
  | 'I' :: c :: rest => if c.isUpper then c :: rest else segment ++ suffix.toList
  | _ => segment ++ suffix.toList

/-- The implementation's name for the identity of an interface. -/
def ofInterface (identity : String) : String :=
  String.ofList (ofSegment (Text.lastSegment identity.toList))

end ClientSynth.TypeName

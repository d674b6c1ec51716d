/-!
# `ClientSynth.Text.Segments` — cutting text at separators

Three cuts are used by the notations of the library: a route path at every `/`, a qualified name
at every `::`, and a text into its lines. Each gives at least one part, or exactly the parts that
its doc comment says, and none looks inside the parts.
-/

set_option autoImplicit false

namespace ClientSynth.Text

/-! ## At a character -/

/-- The parts of a text between the occurrences of `sep`: one more than there are occurrences. -/
def splitAt (sep : Char) : List Char → List (List Char)
  | [] => [[]]
  | c :: cs =>
    if c = sep then [] :: splitAt sep cs
    else
      match splitAt sep cs with
      | [] => [[c]]
      | part :: parts => (c :: part) :: parts

theorem splitAt_ne_nil (sep : Char) : ∀ cs : List Char, splitAt sep cs ≠ []
  | [] => by simp [splitAt]
  | c :: cs => by
    rw [splitAt]
    split
    · simp
    · split <;> simp

/-! ## At `::` -/

/-- The parts of a text between the occurrences of `::`, which are found from the left and do not
overlap. -/
def splitPath : List Char → List (List Char)
  | [] => [[]]
  | ':' :: ':' :: cs => [] :: splitPath cs
  | c :: cs =>
    match splitPath cs with
    | [] => [[c]]
    | part :: parts => (c :: part) :: parts

/-- The text after the last `::`, if there is one. -/
def afterLastPath? : List Char → Option (List Char)
  | [] => none
  | c :: cs =>
    match afterLastPath? cs with
    | some rest => some rest
    | none =>
      match c, cs with
      | ':', ':' :: rest => some rest
      | _, _ => none

/-- The last segment of a qualified name: the text after the last `::`, all of it if there is
none. -/
def lastSegment (cs : List Char) : List Char :=
  (afterLastPath? cs).getD cs

def shortName (s : String) : String :=
  String.ofList (lastSegment s.toList)

/-! ## Into lines -/

/-- The line without the carriage return that may stand at its end. -/
def dropReturn (line : List Char) : List Char :=
  if line.getLast? = some '\r' then line.dropLast else line

/-- The lines of a text. A line ends at a line feed, a carriage return before the line feed belongs
to the line ending, and what follows the last line feed is a line only if it is not empty. -/
def lines (cs : List Char) : List (List Char) :=
  let parts := splitAt '\n' cs
  let ended := parts.dropLast.map dropReturn
  match parts.getLast? with
  | none | some [] => ended
  | some rest => ended ++ [rest]

/-! ## Joining -/

/-- The texts one after another with `sep` between neighbours. -/
def joinWith (sep : List Char) : List (List Char) → List Char
  | [] => []
  | [part] => part
  | part :: rest => part ++ sep ++ joinWith sep rest

end ClientSynth.Text

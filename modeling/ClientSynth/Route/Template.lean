import ClientSynth.Text.Segments

/-!
# `ClientSynth.Route.Template` — route paths with placeholders

A route path such as `/files/{name}.json` is literal text with placeholders. A placeholder is a
nonempty name without braces and slashes, in braces, anywhere in the path; a brace that opens no
placeholder is literal text. `pieces` cuts a path accordingly and `Piece.render` puts it together
again, so nothing of the path is lost.

Two questions about a path look at it in different ways. `placeholders` and `fill` go by the pieces;
`hasSegment` asks for a whole segment between slashes that is one placeholder, and reads the text
itself.
-/

set_option autoImplicit false

namespace ClientSynth

/-- A piece of a route path. -/
inductive Piece where
  /-- Text copied into the address. -/
  | literal (text : String)
  /-- A name whose value goes into the address. -/
  | placeholder (name : String)
  deriving DecidableEq, Inhabited

namespace Piece

/-- The token of a placeholder: its name in braces. -/
def token (name : List Char) : List Char :=
  '{' :: (name ++ ['}'])

/-- The text of a piece in a path. -/
def toChars : Piece → List Char
  | literal text => text.toList
  | placeholder name => token name.toList

/-- The path that some pieces make. -/
def render (ps : List Piece) : List Char :=
  ps.flatMap toChars

/-- What a placeholder may be named: something, without braces and slashes. -/
def isPlaceholderName (name : List Char) : Bool :=
  !name.isEmpty && name.all fun c => c != '{' && c != '}' && c != '/'

/-- Text after an opening brace that starts with a placeholder name and a closing brace: the name
and what follows. -/
def placeholder? (cs : List Char) : Option (List Char × List Char) :=
  let name := cs.takeWhile (· ≠ '}')
  match cs.dropWhile (· ≠ '}') with
  | [] => none
  | _ :: rest => if isPlaceholderName name then some (name, rest) else none

theorem length_placeholder? {cs name rest : List Char} (h : placeholder? cs = some (name, rest)) :
    rest.length < cs.length := by
  have hle := (List.dropWhile_sublist (fun c : Char => c ≠ '}') (l := cs)).length_le
  revert h
  fun_cases placeholder? cs with
  | case1 => simp
  | case2 name' c r hd _ =>
    intro h
    rw [hd] at hle
    simp at h hle
    rw [← h.2]
    omega
  | case3 => simp

/-- A literal piece, unless its text is empty. -/
def consLiteral (text : List Char) (ps : List Piece) : List Piece :=
  if text.isEmpty then ps else literal (String.ofList text) :: ps

/-- The literal text at the start of a path, and the pieces after it. -/
def scan : List Char → List Char × List Piece
  | [] => ([], [])
  | c :: cs =>
    if c = '{' then
      match _h : placeholder? cs with
      | some (name, rest) =>
        let (text, ps) := scan rest
        ([], placeholder (String.ofList name) :: consLiteral text ps)
      | none =>
        let (text, ps) := scan cs
        (c :: text, ps)
    else
      let (text, ps) := scan cs
      (c :: text, ps)
termination_by cs => cs.length
decreasing_by
  · have := length_placeholder? _h; simp; omega
  · simp
  · simp

/-- The pieces of a path. -/
def ofChars (cs : List Char) : List Piece :=
  let (text, ps) := scan cs
  consLiteral text ps

end Piece

namespace Template

def pieces (path : String) : List Piece :=
  Piece.ofChars path.toList

/-- The segments of a path between slashes, those at its very start left out. -/
def segmentsOf (cs : List Char) : List (List Char) :=
  Text.splitAt '/' (cs.dropWhile (· == '/'))

def segments (path : String) : List String :=
  (segmentsOf path.toList).map String.ofList

/-- Whether some segment of a path is exactly the placeholder `name`. -/
def hasSegment (path name : String) : Bool :=
  (segmentsOf path.toList).contains (Piece.token name.toList)

/-- A list without the elements that occurred before. -/
def firstOccurrences (seen : List String) : List String → List String
  | [] => []
  | name :: names =>
    if name ∈ seen then firstOccurrences seen names
    else name :: firstOccurrences (name :: seen) names

/-- The name of a placeholder, if the piece is one. -/
def placeholderName? : Piece → Option String
  | .literal _ => none
  | .placeholder name => some name

/-- The placeholder names of a path in order of first appearance, each once. -/
def placeholders (path : String) : List String :=
  firstOccurrences [] ((pieces path).filterMap placeholderName?)

/-- The text that pieces make when each placeholder is replaced by its value, or the first
placeholder without one. -/
def fillPieces (value : String → Option String) : List Piece → Except String String
  | [] => .ok ""
  | .literal text :: ps => return text ++ (← fillPieces value ps)
  | .placeholder name :: ps =>
    match value name with
    | none => .error name
    | some text => return text ++ (← fillPieces value ps)

/-- The address for a path and the values of its placeholders, or the first placeholder without a
value. Values are not looked into for placeholders. -/
def fill (path : String) (value : String → Option String) : Except String String :=
  fillPieces value (pieces path)

end Template

end ClientSynth

/-!
# `ClientSynth.Yaml.Cell` — characters with their place in a text

Where a character stands decides what it means in YAML: indentation opens and closes collections, and
a key must fit one line. So a text is first turned into cells, each a character with its line and
column, and every reader after that works on lists of cells.

A line break is one cell whatever it is written as, and most breaks count as a line feed; the line
and paragraph separators of Unicode break a line too and keep their own character.
-/

set_option autoImplicit false

namespace ClientSynth.Yaml

/-- A character and its place, counted from 0. -/
structure Cell where
  char : Char
  line : Nat
  column : Nat
  deriving DecidableEq

namespace Cell

/-- The characters a text may hold. -/
def isAllowed (c : Char) : Bool :=
  c == '\t' || c == '\n' || c == '\r' || (0x20 ≤ c.val && c.val ≤ 0x7E) || c.val == 0x85 ||
  (0xA0 ≤ c.val && c.val ≤ 0xFFFD) || 0x10000 ≤ c.val

/-- Whether a character breaks the line, with its stand-in. -/
def breakChar? (c : Char) : Option Char :=
  if c = '\n' ∨ c = '\r' ∨ c = '\u0085' then some '\n'
  else if c = '\u2028' ∨ c = '\u2029' then some c
  else none

/-- The cells of a text that starts at a place. -/
def place (line column : Nat) : List Char → List Cell
  | [] => []
  | '\r' :: '\n' :: cs => ⟨'\n', line, column⟩ :: place (line + 1) 0 cs
  | c :: cs =>
    match breakChar? c with
    | some b => ⟨b, line, column⟩ :: place (line + 1) 0 cs
    | none => ⟨c, line, column⟩ :: place line (column + 1) cs

/-- The cells of a text, if it holds no forbidden character. -/
def ofChars? (cs : List Char) : Option (List Cell) :=
  if cs.all isAllowed then some (place 0 0 cs) else none

def isBlank (c : Cell) : Bool := c.char == ' ' || c.char == '\t'

def isBreak (c : Cell) : Bool :=
  c.char == '\n' || c.char == '\u2028' || c.char == '\u2029'

def isSpace (c : Cell) : Bool := c.isBlank || c.isBreak

/-- Whether the text goes on with white space, or ends. -/
def spaceNext : List Cell → Bool
  | [] => true
  | c :: _ => c.isSpace

/-- Whether the text goes on with a line break, or ends. -/
def breakNext : List Cell → Bool
  | [] => true
  | c :: _ => c.isBreak

/-- Letters, digits, `_` and `-`, which names of anchors and tags are made of. -/
def isWord (c : Cell) : Bool := c.char.isAlphanum || c.char == '_' || c.char == '-'

def chars (cells : List Cell) : List Char := cells.map (·.char)

/-- Whether a document marker made of three times `mark` stands here: at the start of a line, with
white space after it. -/
def isMarker (mark : Char) : List Cell → Bool
  | a :: b :: c :: rest =>
    a.column == 0 && a.char == mark && b.char == mark && c.char == mark && spaceNext rest
  | _ => false

/-- Whether either document marker stands here. -/
def isDocumentMarker (cells : List Cell) : Bool :=
  isMarker '-' cells || isMarker '.' cells

/-- The cells after blanks and a comment, which must be followed by the end of the line. The
comment needs no blank before it. -/
def lineEnd? (cells : List Cell) : Option (List Cell) :=
  let rest := cells.dropWhile isBlank
  let rest := match rest with
    | c :: _ => if c.char = '#' then rest.dropWhile (fun (d : Cell) => !d.isBreak) else rest
    | [] => []
  match rest with
  | [] => some []
  | c :: rest => if c.isBreak then some rest else none

end Cell

end ClientSynth.Yaml

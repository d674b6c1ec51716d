import ClientSynth.Yaml.Cell

/-!
# `ClientSynth.Yaml.Scalar` — the five ways to write a text

A YAML scalar is plain, quoted once or twice, or a block, literal or folded. Each reader here takes
the cells from the start of the scalar on and gives its text and the cells after it.

What plain and quoted scalars do with white space inside them is one rule (`Gap`): blanks on one line
stay, a single line break becomes a space, and of several breaks all but the first stay.
-/

set_option autoImplicit false

namespace ClientSynth.Yaml

/-- How a scalar is written. -/
inductive Style where
  | plain | singleQuoted | doubleQuoted | literal | folded
  deriving DecidableEq, Repr

/-! ## White space inside a scalar -/

/-- White space read since the last other character of a scalar. -/
inductive Gap where
  | none
  | blanks (cs : List Char)
  /-- Line breaks, the first apart. An escaped break leaves no first one. -/
  | breaks (first : List Char) (more : List Char)

namespace Gap

/-- One more blank. Blanks around line breaks are dropped. -/
def addBlank (c : Char) : Gap → Gap
  | none => blanks [c]
  | blanks cs => blanks (cs ++ [c])
  | breaks first more => breaks first more

/-- One more line break. -/
def addBreak (c : Char) : Gap → Gap
  | none | blanks _ => breaks [c] []
  | breaks first more => breaks first (more ++ [c])

def isBroken : Gap → Bool
  | breaks _ _ => true
  | _ => false

def isNone : Gap → Bool
  | none => true
  | _ => false

/-- What the white space stands for in the text. -/
def text : Gap → List Char
  | none => []
  | blanks cs => cs
  | breaks ['\n'] [] => [' ']
  | breaks ['\n'] more => more
  | breaks first more => first ++ more

end Gap

/-! ## Quoted scalars -/

/-- The text of a single-quoted scalar, after its opening quote. A quote is written twice. -/
def singleQuoted? (gap : Gap) : List Cell → Option (List Char × List Cell)
  | [] => none
  | c :: rest =>
    if c.isBlank then singleQuoted? (gap.addBlank c.char) rest
    else if c.isBreak then singleQuoted? (gap.addBreak c.char) rest
    else if Cell.isDocumentMarker (c :: rest) then none
    else if c.char = '\'' then
      match rest with
      | d :: rest' =>
        if d.char = '\'' then do
          let (text, end') ← singleQuoted? .none rest'
          return (gap.text ++ '\'' :: text, end')
        else some (gap.text, rest)
      | [] => some (gap.text, [])
    else do
      let (text, end') ← singleQuoted? .none rest
      return (gap.text ++ c.char :: text, end')

/-- The character that a one-letter escape stands for. -/
def escapeChar? : Char → Option Char
  | '0' => some '\x00'
  | 'a' => some '\x07'
  | 'b' => some '\x08'
  | 't' | '\t' => some '\t'
  | 'n' => some '\n'
  | 'v' => some '\x0b'
  | 'f' => some '\x0c'
  | 'r' => some '\r'
  | 'e' => some '\x1b'
  | ' ' => some ' '
  | '"' => some '"'
  | '/' => some '/'
  | '\\' => some '\\'
  | 'N' => some '\u0085'
  | '_' => some '\u00a0'
  | 'L' => some '\u2028'
  | 'P' => some '\u2029'
  | _ => none

/-- How many hexadecimal digits follow an escape letter, if it takes any. -/
def escapeLength? : Char → Option Nat
  | 'x' => some 2
  | 'u' => some 4
  | 'U' => some 8
  | _ => none

def hexValue? (c : Char) : Option Nat :=
  if c.isDigit then some (c.toNat - '0'.toNat)
  else if 'a' ≤ c ∧ c ≤ 'f' then some (c.toNat - 'a'.toNat + 10)
  else if 'A' ≤ c ∧ c ≤ 'F' then some (c.toNat - 'A'.toNat + 10)
  else none

/-- The number that some hexadecimal digits write. -/
def hexNumber? (cs : List Char) : Option Nat :=
  cs.foldlM (fun n c => (hexValue? c).map (n * 16 + ·)) 0

def charOfNumber? (n : Nat) : Option Char :=
  if n < 0xD800 ∨ (0xDFFF < n ∧ n < 0x110000) then some (Char.ofNat n) else none

/-- Where a double-quoted scalar is: in its text, or `n` hexadecimal digits before the end of an
escape. -/
inductive QuoteState where
  | text (gap : Gap)
  | digits (read : List Char) (left : Nat)

/-- The text of a double-quoted scalar, after its opening quote. -/
def doubleQuoted? : QuoteState → List Cell → Option (List Char × List Cell)
  | _, [] => none
  | .digits read left, c :: rest =>
    match left with
    | 0 | 1 => do
      let d ← charOfNumber? (← hexNumber? (read ++ [c.char]))
      let (text, end') ← doubleQuoted? (.text .none) rest
      return (d :: text, end')
    | left + 1 => doubleQuoted? (.digits (read ++ [c.char]) left) rest
  | .text gap, c :: rest =>
    if c.isBlank then doubleQuoted? (.text (gap.addBlank c.char)) rest
    else if c.isBreak then doubleQuoted? (.text (gap.addBreak c.char)) rest
    else if Cell.isDocumentMarker (c :: rest) then none
    else if c.char = '"' then some (gap.text, rest)
    else if c.char = '\\' then
      match rest with
      | [] => none
      | d :: rest =>
        -- An escaped break joins two lines without a space.
        if d.isBreak then do
          let (text, end') ← doubleQuoted? (.text (.breaks [] [])) rest
          return (gap.text ++ text, end')
        else
          match escapeLength? d.char with
          | some n => do
            let (text, end') ← doubleQuoted? (.digits [] n) rest
            return (gap.text ++ text, end')
          | none => do
            let e ← escapeChar? d.char
            let (text, end') ← doubleQuoted? (.text .none) rest
            return (gap.text ++ e :: text, end')
    else do
      let (text, end') ← doubleQuoted? (.text .none) rest
      return (gap.text ++ c.char :: text, end')

/-! ## Plain scalars -/

/-- The characters that have a meaning of their own in flow collections. -/
def isFlowIndicator (c : Char) : Bool :=
  c == ',' || c == '[' || c == ']' || c == '{' || c == '}'

/-- Whether a plain scalar ends at an indicator: a colon before white space, and any indicator of
flow collections inside one. -/
def endsPlain (inFlow : Bool) (c : Cell) (rest : List Cell) : Bool :=
  (c.char == ':' && Cell.spaceNext rest) || (inFlow && isFlowIndicator c.char)

/-- Whether a colon here could be meant either way: inside a flow collection, before an indicator. -/
def isAmbiguous (inFlow : Bool) (c : Cell) (rest : List Cell) : Bool :=
  inFlow && c.char == ':' &&
    match rest with
    | d :: _ => isFlowIndicator d.char || d.char == '?'
    | [] => false

/-- The text of a plain scalar, the cells after it and after the white space that follows, and
whether that white space broke the line. Lines must be indented by `indent` at least, except in flow
collections. -/
def plain? (inFlow : Bool) (indent : Int) (gap : Gap) :
    List Cell → Option (List Char × List Cell × Bool)
  | [] => some ([], [], gap.isBroken)
  | c :: rest =>
    if c.isBlank then
      if gap.isBroken ∧ c.char = '\t' ∧ (c.column : Int) < indent then none
      else plain? inFlow indent (gap.addBlank c.char) rest
    else if c.isBreak then plain? inFlow indent (gap.addBreak c.char) rest
    -- These end a scalar only after white space.
    else if !gap.isNone && (Cell.isDocumentMarker (c :: rest) || c.char == '#' ||
        (!inFlow && decide ((c.column : Int) < indent))) then
      some ([], c :: rest, gap.isBroken)
    else if isAmbiguous inFlow c rest then none
    else if endsPlain inFlow c rest then some ([], c :: rest, gap.isBroken)
    else do
      let (text, end', broken) ← plain? inFlow indent .none rest
      return (gap.text ++ c.char :: text, end', broken)

/-! ## Block scalars -/

/-- What becomes of the line breaks at the end of a block scalar. -/
inductive Chomping where
  | strip | clip | keep
  deriving DecidableEq

/-- The chomping that an indicator asks for. -/
def Chomping.ofChar? : Char → Option Chomping
  | '+' => some .keep
  | '-' => some .strip
  | _ => none

/-- A chomping indicator, if one is there. -/
def chomping? : List Cell → Option Chomping × List Cell
  | c :: rest =>
    match Chomping.ofChar? c.char with
    | some ch => (some ch, rest)
    | none => (none, c :: rest)
  | [] => (none, [])

/-- An indentation indicator, if one is there: a digit other than 0, which is an error. -/
def increment? : List Cell → Option (Nat × List Cell)
  | c :: rest =>
    if c.char = '0' then none
    else if c.char.isDigit then some (c.char.toNat - '0'.toNat, rest)
    else some (0, c :: rest)
  | [] => some (0, [])

/-- The header of a block scalar after its first character: chomping and indentation indicators in
either order, then the end of the line. -/
def blockHeader? (cells : List Cell) : Option (Chomping × Nat × List Cell) := do
  let (first, rest) := chomping? cells
  let (increment, rest) ← increment? rest
  let (second, rest) := if first.isNone ∧ increment ≠ 0 then chomping? rest else (none, rest)
  let rest ← Cell.lineEnd? rest
  return ((first.or second).getD .clip, increment, rest)

/-- The deepest indentation among the blank lines at the start of a block scalar and the line after
them. A tab in place of indentation is an error. -/
def leadingIndent? (deepest : Nat) : List Cell → Option Nat
  | [] => some deepest
  | c :: rest =>
    if c.char = ' ' then leadingIndent? (max deepest (c.column + 1)) rest
    else if c.char = '\t' then none
    else if c.isBreak then leadingIndent? deepest rest
    else some deepest

/-- Where a block scalar is: inside a line, or between lines with the break that ended the last one
and the empty lines since. `blank` tells whether the last line started with a blank. -/
inductive BlockState where
  | line (blank : Bool)
  | between (blank : Bool) (first : List Char) (more : List Char)

/-- What the breaks before a line stand for. A folded scalar joins two lines that do not start with
blanks. -/
def joinLines (folded blank nextBlank : Bool) (first more : List Char) : List Char :=
  if folded ∧ first = ['\n'] ∧ ¬blank ∧ ¬nextBlank then
    if more.isEmpty then [' '] else more
  else first ++ more

/-- What is left of the breaks at the end. -/
def chomp : Chomping → List Char → List Char → List Char
  | .strip, _, _ => []
  | .clip, first, _ => first
  | .keep, first, more => first ++ more

/-- The text of a block scalar whose lines are indented by `indent`. -/
def block? (folded : Bool) (chomping : Chomping) (indent : Nat) :
    BlockState → List Cell → Option (List Char × List Cell)
  | .line _, [] => some ([], [])
  | .between _ first more, [] => some (chomp chomping first more, [])
  | .line blank, c :: rest =>
    if c.isBreak then block? folded chomping indent (.between blank [c.char] []) rest
    else do
      let (text, end') ← block? folded chomping indent (.line blank) rest
      return (c.char :: text, end')
  | .between blank first more, c :: rest =>
    if c.isBreak then block? folded chomping indent (.between blank first (more ++ [c.char])) rest
    else if c.column < indent then
      if c.char = ' ' then block? folded chomping indent (.between blank first more) rest
      else if c.char = '\t' then none
      else some (chomp chomping first more, c :: rest)
    else do
      let (text, end') ← block? folded chomping indent (.line c.isBlank) rest
      return (joinLines folded blank c.isBlank first more ++ c.char :: text, end')

/-- The text of a block scalar after its first character, inside a collection of indentation
`parent` (`-1` outside all). -/
def blockScalar? (folded : Bool) (parent : Int) (cells : List Cell) :
    Option (List Char × List Cell) := do
  let (chomping, increment, rest) ← blockHeader? cells
  let indent ←
    -- Without an indicator the first lines tell the indentation, which is one at least.
    if increment = 0 then do
      let deepest ← leadingIndent? 0 rest
      pure (max deepest (max 1 (parent + 1).toNat))
    else pure ((max parent 0).toNat + increment)
  block? folded chomping indent (.between false [] []) rest

end ClientSynth.Yaml

import ClientSynth.Yaml.Scalar

/-!
# `ClientSynth.Yaml.Token` — the words of a YAML text

Tokens make the structure of a YAML text explicit: where block collections start and end by
indentation, what is a key, and the text of scalars. A key is only known as one when the colon after
it is met, so the place where its token belongs is remembered (`KeyPlace`) until then.

Anchors are numbered while they are read: a node with an anchor takes the slot whose number is how
many names were in use, so a name that is used anew takes a slot that the next new name takes too.

Each step of `Scan` reads at least one cell, which is why `ofCells?` ends; a text that no token
starts with, whose indentation makes no sense, or which mentions an unknown name, has no tokens.
-/

set_option autoImplicit false

namespace ClientSynth.Yaml

/-- One token of a YAML text. -/
inductive Token where
  | versionDirective (major minor : Nat)
  | tagDirective (handle stem : List Char)
  | documentStart | documentEnd
  | blockSequenceStart | blockMappingStart | blockEnd
  | flowSequenceStart | flowSequenceEnd | flowMappingStart | flowMappingEnd
  | blockEntry | flowEntry | key | value
  /-- A mention of the node that took a slot. -/
  | alias (slot : Nat)
  /-- The slot that the next node takes. -/
  | anchor (slot : Nat)
  | tag (handle suffix : List Char)
  | scalar (style : Style) (text : List Char)
  deriving DecidableEq

namespace Token

/-! ## Names, tags and directives -/

/-- The characters that may follow a name directly. -/
def endsName (c : Cell) : Bool :=
  c.isSpace || c.char == '?' || c.char == ':' || c.char == ',' || c.char == ']' || c.char == '}' ||
    c.char == '%' || c.char == '@' || c.char == '\x60'

/-- The name of an anchor or alias, after its indicator. -/
def name? (cells : List Cell) : Option (List Char × List Cell) :=
  let name := cells.takeWhile Cell.isWord
  let rest := cells.dropWhile Cell.isWord
  let ends := match rest with
    | [] => true
    | c :: _ => endsName c
  if !name.isEmpty && ends then some (Cell.chars name, rest) else none

/-- The characters of a tag, besides escapes. Commas and brackets are only for tags that are given
in full, between angle brackets or in a directive. -/
def isTagChar (inFull : Bool) (c : Cell) : Bool :=
  c.isWord || ";/?:@&=+$.!~*'()".toList.contains c.char || (inFull && ",[]".toList.contains c.char)

/-- The bytes of one character that starts with `first`. -/
def sequenceLength? (first : Nat) : Option Nat :=
  if first < 0x80 then some 1
  else if first / 0x20 = 6 then some 2
  else if first / 0x10 = 14 then some 3
  else if first / 0x08 = 30 then some 4
  else none

/-- The character of some bytes; bytes that make no character stand for a replacement character. -/
def charOfBytes (bytes : List Nat) : Char :=
  match String.fromUTF8? (ByteArray.mk (bytes.map (·.toUInt8)).toArray) with
  | some s => s.toList.headD '\ufffd'
  | none => '\ufffd'

/-- The text of a tag, with `pending` bytes read of a character that is written in escapes and takes
`left` more. -/
def tagText? (inFull : Bool) (pending : List Nat) (left : Nat) :
    List Cell → Option (List Char × List Cell)
  | [] => if left = 0 then some ([], []) else none
  | c :: rest =>
    if c.char = '%' then
      match rest with
      | a :: b :: rest => do
        let byte := (← hexValue? a.char) * 16 + (← hexValue? b.char)
        -- The first byte of a character tells how many bytes it takes.
        let left ←
          if left = 0 then sequenceLength? byte
          else if byte / 0x40 = 2 then some left
          else none
        let bytes := pending ++ [byte]
        if left ≤ 1 then do
          let (text, end') ← tagText? inFull [] 0 rest
          return (charOfBytes bytes :: text, end')
        else tagText? inFull bytes (left - 1) rest
      | _ => none
    else if left ≠ 0 then none
    else if isTagChar inFull c then do
      let (text, end') ← tagText? inFull [] 0 rest
      return (c.char :: text, end')
    else some ([], c :: rest)

/-- A tag handle: an exclamation mark, and perhaps a name and another one. -/
def handle (cells : List Cell) : List Char × List Cell :=
  match cells with
  | [] => ([], [])
  | bang :: rest =>
    let name := rest.takeWhile Cell.isWord
    match rest.dropWhile Cell.isWord with
    | c :: rest' =>
      if c.char = '!' then (bang.char :: (Cell.chars name ++ ['!']), rest')
      else (bang.char :: Cell.chars name, c :: rest')
    | [] => (bang.char :: Cell.chars name, [])

/-- A tag in the text, from its exclamation mark on: in full between angle brackets, or a handle and
a suffix, the handle `!` if none is written. A lone `!` is a tag too. -/
def tag? (inFlow : Bool) (cells : List Cell) : Option (Token × List Cell) := do
  let (token, rest) ←
    match cells with
    | bang :: open' :: rest =>
      if open'.char = '<' then do
        let (text, rest) ← tagText? true [] 0 rest
        match rest with
        | close :: rest => if close.char = '>' ∧ text ≠ [] then some (tag [] text, rest) else none
        | [] => none
      else byHandle (bang :: open' :: rest)
    | cells => byHandle cells
  let ends := match rest with
    | [] => true
    | c :: _ => c.isSpace || (inFlow && c.char == ',')
  if ends then some (token, rest) else none
where
  /-- A tag that starts with a handle. -/
  byHandle (cells : List Cell) : Option (Token × List Cell) := do
    let (h, rest) := handle cells
    let (text, rest) ← tagText? false [] 0 rest
    if 2 ≤ h.length ∧ h.getLast? = some '!' then
      if text.isEmpty then none else some (tag h text, rest)
    else
      -- What began like a handle, but has no second mark, begins the suffix.
      match h.drop 1 ++ text with
      | [] => some (tag [] ['!'], rest)
      | suffix => some (tag ['!'] suffix, rest)

/-- A version number: up to nine digits. -/
def versionNumber? (cells : List Cell) : Option (Nat × List Cell) :=
  let ds := cells.takeWhile fun c => c.char.isDigit
  if ds.isEmpty ∨ 9 < ds.length then none
  else some (ds.foldl (fun n c => n * 10 + (c.char.toNat - '0'.toNat)) 0,
    cells.dropWhile fun c => c.char.isDigit)

/-- A directive, after its percent sign. Only `YAML` and `TAG` are known. -/
def directive? (cells : List Cell) : Option (Token × List Cell) := do
  let name := Cell.chars (cells.takeWhile Cell.isWord)
  let rest := cells.dropWhile Cell.isWord
  if !Cell.spaceNext rest then none
  else
    let rest := rest.dropWhile Cell.isBlank
    if name = "YAML".toList then do
      let (major, rest) ← versionNumber? rest
      match rest with
      | dot :: rest =>
        if dot.char = '.' then do
          let (minor, rest) ← versionNumber? rest
          return (versionDirective major minor, ← Cell.lineEnd? rest)
        else none
      | [] => none
    else if name = "TAG".toList then do
      match rest with
      | bang :: _ =>
        if bang.char = '!' then do
          let (h, rest) := handle rest
          let complete := h = ['!'] ∨ (2 ≤ h.length ∧ h.getLast? = some '!')
          match rest with
          | blank :: _ =>
            if complete ∧ blank.isBlank then do
              let (text, rest) ← tagText? true [] 0 (rest.dropWhile Cell.isBlank)
              if text.isEmpty ∨ !Cell.spaceNext rest then none
              else return (tagDirective h text, ← Cell.lineEnd? rest)
            else none
          | [] => none
        else none
      | [] => none
    else none

end Token

/-! ## Scanning -/

/-- Where a key may have started: at this place of the text, with this many tokens before it. A
required key must turn out to be one. -/
structure KeyPlace where
  line : Nat
  column : Nat
  position : Nat
  required : Bool
  deriving DecidableEq

/-- A text that is being cut into tokens. -/
structure Scan where
  cells : List Cell
  /-- The indentation of the innermost block collection, `-1` outside all. -/
  indent : Int := -1
  /-- The indentations of the block collections around it, the innermost first. -/
  outer : List Int := []
  /-- Whether a key may start here. -/
  keyAllowed : Bool := true
  /-- Where the key that is read may have started, in the innermost flow collection or block. -/
  keyPlace : Option KeyPlace := none
  /-- The same for what is around the open flow collections, the innermost first. -/
  outerKeys : List (Option KeyPlace) := []
  /-- The names of anchors and their slots. -/
  names : List (List Char × Nat) := []
  tokens : Array Token := #[]

namespace Scan

def inFlow (s : Scan) : Bool := !s.outerKeys.isEmpty

/-- One more token, read up to `rest`. -/
def emit (s : Scan) (t : Token) (rest : List Cell) : Scan :=
  { s with tokens := s.tokens.push t, cells := rest }

/-- The cells from the next token on, and whether a key may start there. Outside flow collections a
tab is no white space where a key may start, and after a line break one may. A byte order mark may
start the text. -/
def toToken (inFlow : Bool) (keyAllowed inComment : Bool) : List Cell → Bool × List Cell
  | [] => (keyAllowed, [])
  | c :: rest =>
    if c.isBreak then toToken inFlow (keyAllowed || !inFlow) false rest
    else if inComment then toToken inFlow keyAllowed true rest
    else if c.char = ' ' ∨ (c.char = '\t' ∧ (inFlow ∨ ¬keyAllowed)) then
      toToken inFlow keyAllowed false rest
    else if c.char = '#' then toToken inFlow keyAllowed true rest
    else if c.char = '\ufeff' ∧ c.line = 0 ∧ c.column = 0 then toToken inFlow keyAllowed false rest
    else (keyAllowed, c :: rest)

/-- How far a key may reach in its line. -/
def maxKeyLength : Nat := 1024

/-- The place of a key if it may still be one at `c`, which is on its line and not too far on; an
error if a required key may not. -/
def stillKey? (c : Cell) : Option KeyPlace → Option (Option KeyPlace)
  | none => some none
  | some k =>
    if k.line < c.line ∨ k.column + maxKeyLength < c.column then
      if k.required then none else some none
    else some (some k)

/-- Forgets the key places that can no longer be keys at `c`. -/
def dropStale? (s : Scan) (c : Cell) : Option Scan := do
  let keyPlace ← stillKey? c s.keyPlace
  let outerKeys ← s.outerKeys.mapM (stillKey? c)
  return { s with keyPlace, outerKeys }

/-- Ends the block collections that are indented by more than `column`. -/
def closeTo (column : Int) (indent : Int) (outer : List Int) (tokens : Array Token) :
    Int × List Int × Array Token :=
  if indent ≤ column then (indent, outer, tokens)
  else
    match outer with
    | [] => (-1, [], tokens.push .blockEnd)
    | i :: outer => closeTo column i outer (tokens.push .blockEnd)

/-- Ends the block collections that are indented by more than `column`, if no flow collection is
open. -/
def unindent (s : Scan) (column : Int) : Scan :=
  if s.inFlow then s
  else
    let (indent, outer, tokens) := closeTo column s.indent s.outer s.tokens
    { s with indent, outer, tokens }

/-- Starts a block collection at `column`, unless one is open there or a flow collection is. Its
token goes to a position among the tokens. -/
def openBlock (s : Scan) (column : Nat) (t : Token) (position : Nat) : Scan :=
  if s.inFlow ∨ ¬(s.indent < column) then s
  else
    { s with
      outer := s.indent :: s.outer
      indent := column
      tokens := s.tokens.insertIdxIfInBounds position t }

/-- Forgets the place of a key; an error if the key is required. -/
def dropKey? (s : Scan) : Option Scan :=
  match s.keyPlace with
  | some k => if k.required then none else some { s with keyPlace := none }
  | none => some s

/-- Remembers that a key may start at `c`. -/
def saveKey? (s : Scan) (c : Cell) : Option Scan :=
  if s.keyAllowed then do
    let s ← s.dropKey?
    return { s with keyPlace := some {
      line := c.line
      column := c.column
      position := s.tokens.size
      required := !s.inFlow && decide (s.indent = c.column) } }
  else some s

/-- A directive or document marker: it ends all block collections. -/
def endBlocks? (s : Scan) : Option Scan := do
  let s ← (s.unindent (-1)).dropKey?
  return { s with keyAllowed := false }

/-- The start of a flow collection. -/
def openFlow? (s : Scan) (c : Cell) (rest : List Cell) (t : Token) : Option Scan := do
  let s ← s.saveKey? c
  return { s.emit t rest with
    keyPlace := none, outerKeys := s.keyPlace :: s.outerKeys, keyAllowed := true }

/-- The end of a flow collection. -/
def closeFlow? (s : Scan) (rest : List Cell) (t : Token) : Option Scan := do
  let s ← s.dropKey?
  let s := { s.emit t rest with keyAllowed := false }
  match s.outerKeys with
  | [] => return s
  | k :: outer => return { s with keyPlace := k, outerKeys := outer }

/-- A dash before an entry of a block sequence. -/
def entry? (s : Scan) (c : Cell) (rest : List Cell) : Option Scan := do
  if !s.inFlow && !s.keyAllowed then none
  else
    let s ← (s.openBlock c.column .blockSequenceStart s.tokens.size).dropKey?
    return { s.emit .blockEntry rest with keyAllowed := true }

/-- A question mark before a key. -/
def key? (s : Scan) (c : Cell) (rest : List Cell) : Option Scan := do
  if !s.inFlow && !s.keyAllowed then none
  else
    let s ← (s.openBlock c.column .blockMappingStart s.tokens.size).dropKey?
    return { s.emit .key rest with keyAllowed := !s.inFlow }

/-- A colon: what was remembered as a possible key is one. -/
def value? (s : Scan) (c : Cell) (rest : List Cell) : Option Scan :=
  match s.keyPlace with
  | some k =>
    -- The key has been read already: its token goes before it, and so does the start of a mapping.
    let s := { s with tokens := s.tokens.insertIdxIfInBounds k.position .key }
    let s := s.openBlock k.column .blockMappingStart k.position
    some { s.emit .value rest with keyPlace := none, keyAllowed := false }
  | none =>
    if !s.inFlow && !s.keyAllowed then none
    else
      let s := s.openBlock c.column .blockMappingStart s.tokens.size
      some { s.emit .value rest with keyAllowed := !s.inFlow }

/-- A part of a node that a key may start with. -/
def part? (s : Scan) (c : Cell) (read : Option (Token × List Cell)) : Option Scan := do
  let s ← s.saveKey? c
  let (t, rest) ← read
  return { s.emit t rest with keyAllowed := false }

/-- An anchor: its name stands for a slot from here on. -/
def anchor? (s : Scan) (c : Cell) (rest : List Cell) : Option Scan := do
  let (name, rest) ← Token.name? rest
  let slot := s.names.length
  let s ← s.part? c (some (.anchor slot, rest))
  return { s with names := (name, slot) :: s.names.filter (·.1 != name) }

/-- An alias: its name must stand for a slot. -/
def alias? (s : Scan) (c : Cell) (rest : List Cell) : Option Scan := do
  let (name, rest) ← Token.name? rest
  let slot ← s.names.lookup name
  s.part? c (some (.alias slot, rest))

/-- Whether a plain scalar may start at a cell: not at white space or an indicator, except that a
dash, and outside flow collections a question mark or colon, may start one when something follows. -/
def startsPlain (inFlow : Bool) (c : Cell) (rest : List Cell) : Bool :=
  (!c.isSpace && !"-?:,[]\x7b\x7d#&*!|>'\"%@\x60".toList.contains c.char) ||
  (c.char == '-' && !(match rest with
    | d :: _ => d.isBlank
    | [] => false)) ||
  (!inFlow && (c.char == '?' || c.char == ':') && !Cell.spaceNext rest)

/-- Reads the token that starts at `c`. -/
def token? (s : Scan) (c : Cell) (rest : List Cell) : Option Scan :=
  if c.column = 0 ∧ c.char = '%' then do
    let s ← s.endBlocks?
    let (t, rest) ← Token.directive? rest
    return s.emit t rest
  else if Cell.isMarker '-' (c :: rest) then do
    return (← s.endBlocks?).emit .documentStart (rest.drop 2)
  else if Cell.isMarker '.' (c :: rest) then do
    return (← s.endBlocks?).emit .documentEnd (rest.drop 2)
  else
    match c.char with
    | '[' => s.openFlow? c rest .flowSequenceStart
    | '\x7b' => s.openFlow? c rest .flowMappingStart
    | ']' => s.closeFlow? rest .flowSequenceEnd
    | '\x7d' => s.closeFlow? rest .flowMappingEnd
    | ',' => do
      let s ← s.dropKey?
      return { s.emit .flowEntry rest with keyAllowed := true }
    | '*' => s.alias? c rest
    | '&' => s.anchor? c rest
    | '!' => s.part? c (Token.tag? s.inFlow (c :: rest))
    | '\'' => s.part? c ((singleQuoted? .none rest).map fun (t, rest) =>
        (.scalar .singleQuoted t, rest))
    | '"' => s.part? c ((doubleQuoted? (.text .none) rest).map fun (t, rest) =>
        (.scalar .doubleQuoted t, rest))
    | ch =>
      if ch = '-' ∧ Cell.spaceNext rest then s.entry? c rest
      else if ch = '?' ∧ (s.inFlow ∨ Cell.spaceNext rest) then s.key? c rest
      else if ch = ':' ∧ (s.inFlow ∨ Cell.spaceNext rest) then s.value? c rest
      else if (ch = '|' ∨ ch = '>') ∧ ¬s.inFlow then do
        let s ← s.dropKey?
        let (t, rest) ← blockScalar? (ch == '>') s.indent rest
        let style := if ch = '>' then Style.folded else Style.literal
        return { s.emit (.scalar style t) rest with keyAllowed := true }
      else if startsPlain s.inFlow c rest then do
        let s ← s.saveKey? c
        let (t, rest, broken) ← plain? s.inFlow (s.indent + 1) .none (c :: rest)
        return { s.emit (.scalar .plain t) rest with keyAllowed := broken }
      else none

/-- The state at the next token, with the block collections ended that its column ends. -/
def settle? (s : Scan) : Option Scan :=
  let (keyAllowed, cells) := toToken s.inFlow s.keyAllowed false s.cells
  let s := { s with keyAllowed, cells }
  match cells with
  | [] => do
    return { ← (s.unindent (-1)).dropKey? with keyAllowed := false }
  | c :: _ => do return (← s.dropStale? c).unindent c.column

/-- The tokens of a whole text, with those read before. Every token takes up at least one cell. -/
def finish? (s : Scan) : Option (List Token) := do
  let t ← s.settle?
  match t.cells with
  | [] => return t.tokens.toList
  | c :: rest =>
    let t ← t.token? c rest
    if t.cells.length < s.cells.length then t.finish? else none
termination_by s.cells.length

end Scan

/-- The tokens of a text, if it has some. -/
def Token.ofCells? (cells : List Cell) : Option (List Token) :=
  Scan.finish? { cells }

end ClientSynth.Yaml

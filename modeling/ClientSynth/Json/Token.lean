import ClientSynth.Json.Basic

/-!
# `ClientSynth.Json.Token` — the words of a JSON text

A JSON text is first cut into tokens. Two kinds of tokens can be well formed and yet have no value:
a number beyond the range of doubles, and a string with an unpaired surrogate escape. Readers that
skip a value accept them, and readers that want the value do not, so such a token is kept with
`none` for its value. Everything else that is no token ends the list with `malformed`.

The text before a malformed place still gives its tokens: what a reader reports is the first
problem from the left, and that may well come before the malformed place.
-/

set_option autoImplicit false

namespace ClientSynth.Json

/-- One token of a JSON text. -/
inductive Token where
  | openBrace | closeBrace | openBracket | closeBracket | comma | colon
  | null
  | bool (b : Bool)
  | number (n : Option Number)
  | string (s : Option String)
  | malformed
  deriving DecidableEq, Inhabited

namespace Token

/-- White space between tokens. -/
def isSpace (c : Char) : Bool :=
  c == ' ' || c == '\t' || c == '\n' || c == '\r'

/-! ## Strings -/

/-- One element of a string: a character, or half of a surrogate pair written as an escape. -/
inductive Element where
  | char (c : Char)
  | surrogate (unit : Nat)
  deriving DecidableEq

/-- The value of a hexadecimal digit. -/
def hexDigit? (c : Char) : Option Nat :=
  if '0' ≤ c ∧ c ≤ '9' then some (c.toNat - '0'.toNat)
  else if 'a' ≤ c ∧ c ≤ 'f' then some (c.toNat - 'a'.toNat + 10)
  else if 'A' ≤ c ∧ c ≤ 'F' then some (c.toNat - 'A'.toNat + 10)
  else none

/-- The element that four hexadecimal digits stand for. -/
def unicodeEscape? (a b c d : Char) : Option Element := do
  let n := ((← hexDigit? a) * 16 + (← hexDigit? b)) * 256 + ((← hexDigit? c) * 16 + (← hexDigit? d))
  return if 0xD800 ≤ n ∧ n ≤ 0xDFFF then .surrogate n else .char (Char.ofNat n)

/-- The character that stands after a backslash in a one-letter escape. -/
def letterEscape? : Char → Option Char
  | '"' => some '"'
  | '\\' => some '\\'
  | '/' => some '/'
  | 'b' => some '\x08'
  | 'f' => some '\x0c'
  | 'n' => some '\n'
  | 'r' => some '\r'
  | 't' => some '\t'
  | _ => none

/-- The elements up to the closing quote, and the text after it. -/
def scanString? : List Char → Option (List Element × List Char)
  | '"' :: rest => some ([], rest)
  | '\\' :: 'u' :: a :: b :: c :: d :: rest => do
    let e ← unicodeEscape? a b c d
    let (es, rest) ← scanString? rest
    return (e :: es, rest)
  | '\\' :: c :: rest => do
    let e ← letterEscape? c
    let (es, rest) ← scanString? rest
    return (.char e :: es, rest)
  | c :: rest =>
    if c.val < 0x20 ∨ c = '\\' then none
    else do
      let (es, rest) ← scanString? rest
      return (.char c :: es, rest)
  | [] => none

/-- The characters of a string whose surrogates pair up, a high one right before a low one. -/
def pairUp? : List Element → Option (List Char)
  | [] => some []
  | .char c :: es => (pairUp? es).map (c :: ·)
  | .surrogate high :: .surrogate low :: es =>
    if high < 0xDC00 ∧ 0xDC00 ≤ low then
      (pairUp? es).map (Char.ofNat (0x10000 + (high - 0xD800) * 0x400 + (low - 0xDC00)) :: ·)
    else none
  | .surrogate _ :: _ => none

theorem length_scanString? : ∀ {cs : List Char} {es : List Element} {rest : List Char},
    scanString? cs = some (es, rest) → rest.length < cs.length := by
  intro cs
  fun_induction scanString? cs with
  | case1 r => intro es rest h; simp at h; simp [h]
  | case2 a b c d r ih =>
    intro es rest h
    simp only [Option.bind_eq_bind, Option.bind_eq_some_iff] at h
    obtain ⟨_, _, ⟨es', rest'⟩, h', h''⟩ := h
    have := ih h'
    simp at h''
    simp only [List.length_cons, ← h''.2]
    omega
  | case3 c r _ ih =>
    intro es rest h
    simp only [Option.bind_eq_bind, Option.bind_eq_some_iff] at h
    obtain ⟨_, _, ⟨es', rest'⟩, h', h''⟩ := h
    have := ih h'
    simp at h''
    simp only [List.length_cons, ← h''.2]
    omega
  | case4 => intro es rest h; simp at h
  | case5 c r _ _ _ _ ih =>
    intro es rest h
    simp only [Option.bind_eq_bind, Option.bind_eq_some_iff] at h
    obtain ⟨⟨es', rest'⟩, h', h''⟩ := h
    have := ih h'
    simp at h''
    simp only [List.length_cons, ← h''.2]
    omega
  | case6 => intro es rest h; simp at h

/-! ## Numbers -/

/-- The parts of a written number, digits as characters. -/
structure NumberText where
  negative : Bool
  whole : List Char
  fraction : List Char
  exponent : Option (Bool × List Char)

/-- Cuts off the digits at the start of a text. -/
def digits (cs : List Char) : List Char × List Char :=
  (cs.takeWhile Char.isDigit, cs.dropWhile Char.isDigit)

/-- The digits after a decimal point, if one is there; at least one must follow it. -/
def scanFraction? : List Char → Option (List Char × List Char)
  | '.' :: cs =>
    match digits cs with
    | ([], _) => none
    | (ds, rest) => some (ds, rest)
  | cs => some ([], cs)

/-- Whether a minus sign is first, and the text after it. -/
def scanMinus : List Char → Bool × List Char
  | '-' :: cs => (true, cs)
  | cs => (false, cs)

/-- Whether a minus sign is first, and the text after the sign, which may also be a plus sign. -/
def scanSign : List Char → Bool × List Char
  | '+' :: cs => (false, cs)
  | cs => scanMinus cs

/-- The sign and digits of an exponent, if one is there. -/
def scanExponent? : List Char → Option (Option (Bool × List Char) × List Char)
  | c :: cs =>
    if c = 'e' ∨ c = 'E' then
      match digits (scanSign cs).2 with
      | ([], _) => none
      | (ds, rest) => some (some ((scanSign cs).1, ds), rest)
    else some (none, c :: cs)
  | [] => some (none, [])

/-- The number at the start of a text, and the text after it. A leading zero stands alone. -/
def scanNumber? (cs : List Char) : Option (NumberText × List Char) :=
  match digits (scanMinus cs).2 with
  | ([], _) => none
  | ('0' :: _ :: _, _) => none
  | (whole, rest) => do
    let (fraction, rest) ← scanFraction? rest
    let (exponent, rest) ← scanExponent? rest
    return (⟨(scanMinus cs).1, whole, fraction, exponent⟩, rest)

theorem length_digits_le (cs : List Char) : (digits cs).2.length ≤ cs.length :=
  (List.dropWhile_sublist _).length_le

theorem length_digits_lt {cs ds rest : List Char} {d : Char} (h : digits cs = (d :: ds, rest)) :
    rest.length < cs.length := by
  have happ := congrArg List.length (List.takeWhile_append_dropWhile (p := Char.isDigit) (l := cs))
  simp only [digits, Prod.mk.injEq] at h
  rw [h.1, h.2] at happ
  simp at happ
  omega

theorem length_scanMinus_le (cs : List Char) : (scanMinus cs).2.length ≤ cs.length := by
  fun_cases scanMinus cs <;> simp

theorem length_scanSign_le (cs : List Char) : (scanSign cs).2.length ≤ cs.length := by
  fun_cases scanSign cs
  · simp
  · exact length_scanMinus_le _

theorem length_scanFraction? {cs ds rest : List Char} (h : scanFraction? cs = some (ds, rest)) :
    rest.length ≤ cs.length := by
  revert h
  fun_cases scanFraction? cs with
  | case1 => simp
  | case2 cs ds' r _ hd =>
    intro h
    have := length_digits_le cs
    simp_all
    omega
  | case3 => intro h; simp_all

theorem length_scanExponent? {cs rest : List Char} {e : Option (Bool × List Char)}
    (h : scanExponent? cs = some (e, rest)) : rest.length ≤ cs.length := by
  revert h
  fun_cases scanExponent? cs with
  | case1 => simp
  | case2 c cs _ ds r _ hd =>
    intro h
    have h1 := length_digits_le (scanSign cs).2
    have h2 := length_scanSign_le cs
    simp [hd] at h1 h
    rw [← h.2, List.length_cons]
    omega
  | case3 => intro h; simp_all
  | case4 => intro h; simp_all

theorem length_scanNumber? {cs rest : List Char} {t : NumberText}
    (h : scanNumber? cs = some (t, rest)) : rest.length < cs.length := by
  revert h
  fun_cases scanNumber? cs with
  | case1 => simp
  | case2 => simp
  | case3 whole r hnil _ hd =>
    intro h
    have hlt : r.length < (scanMinus cs).2.length := by
      cases whole with
      | nil => exact absurd rfl hnil
      | cons d ds => exact length_digits_lt hd
    have hle := length_scanMinus_le cs
    simp only [Option.bind_eq_bind, Option.bind_eq_some_iff] at h
    obtain ⟨⟨f, r1⟩, hf, ⟨e, r2⟩, he, hr⟩ := h
    have h1 : r1.length ≤ r.length := length_scanFraction? hf
    have h2 : r2.length ≤ r1.length := length_scanExponent? he
    simp at hr
    rw [← hr.2]
    omega

def digitValue (c : Char) : Nat :=
  c.toNat - '0'.toNat

/-- The value of a string of digits. -/
def digitsValue (ds : List Char) : Nat :=
  ds.foldl (fun n d => n * 10 + digitValue d) 0

/-- Appends digits to a significand for as long as it fits 64 bits, and counts the digits that are
left over. -/
def accumulate (significand : Nat) : List Char → Nat × Nat
  | [] => (significand, 0)
  | d :: ds =>
    let next := significand * 10 + digitValue d
    if next < UInt64.size then accumulate next ds else (significand, ds.length + 1)

namespace NumberText

/-- The double for a number with a fraction, an exponent or too many digits: digits that do not fit
a 64-bit significand only move the decimal point. There is none beyond the range of doubles. -/
def double? (t : NumberText) : Option Binary64 :=
  let (significand, dropped) := accumulate 0 t.whole
  let (significand, unread) := accumulate significand t.fraction
  let point : Int := (dropped : Int) - ((t.fraction.length - unread : Nat) : Int)
  match t.exponent with
  | none => Binary64.scaled? t.negative significand point
  | some (negative, ds) =>
    let e := digitsValue ds
    -- Such an exponent settles the value without being computed with.
    if 0x80000000 ≤ e then
      if significand ≠ 0 ∧ ¬negative then none else some (.withSign t.negative 0.0)
    else Binary64.scaled? t.negative significand (if negative then point - e else point + e)

/-- The value of a written number. `-0` is a double, since no whole number is a negative zero. -/
def value? (t : NumberText) : Option Number :=
  let n := digitsValue t.whole
  if t.fraction.isEmpty ∧ t.exponent.isNone ∧ ¬(t.negative ∧ n = 0) then
    match Whole.ofInt? (if t.negative then -(n : Int) else n) with
    | some w => some (.whole w)
    | none => t.double?.map .double
  else t.double?.map .double

end NumberText

/-- The token at the start of a text that is no white space, and the text after it. -/
def scan (cs : List Char) : Token × List Char :=
  match cs with
  | '\x7b' :: rest => (openBrace, rest)
  | '\x7d' :: rest => (closeBrace, rest)
  | '[' :: rest => (openBracket, rest)
  | ']' :: rest => (closeBracket, rest)
  | ',' :: rest => (comma, rest)
  | ':' :: rest => (colon, rest)
  | 'n' :: 'u' :: 'l' :: 'l' :: rest => (null, rest)
  | 't' :: 'r' :: 'u' :: 'e' :: rest => (bool true, rest)
  | 'f' :: 'a' :: 'l' :: 's' :: 'e' :: rest => (bool false, rest)
  | '"' :: rest =>
    match scanString? rest with
    | some (es, rest) => (string ((pairUp? es).map String.ofList), rest)
    | none => (malformed, [])
  | cs =>
    match scanNumber? cs with
    | some (t, rest) => (number t.value?, rest)
    | none => (malformed, [])

theorem length_scan {cs : List Char} (h : cs ≠ []) : (scan cs).2.length < cs.length := by
  fun_cases scan cs with
  | case10 es rest r hs =>
    have := length_scanString? hs
    simp only [List.length_cons]
    omega
  | case12 cs t rest _ _ _ _ _ _ _ _ _ _ hs => exact length_scanNumber? hs
  | case13 => exact List.length_pos_iff.2 h
  | case7 | case8 | case9 => simp only [List.length_cons]; omega
  | _ => simp

/-! ## Texts -/

/-- The tokens of a text, up to the first malformed place. -/
def ofChars : List Char → List Token
  | [] => []
  | c :: cs =>
    if isSpace c then ofChars cs
    else (scan (c :: cs)).1 :: ofChars (scan (c :: cs)).2
termination_by cs => cs.length
decreasing_by
  · simp
  · exact length_scan (by simp)

end Token

end ClientSynth.Json

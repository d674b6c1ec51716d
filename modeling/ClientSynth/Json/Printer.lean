import ClientSynth.Decimal.Shortest
import ClientSynth.Json.Basic

/-!
# `ClientSynth.Json.Printer` — writing JSON

Two forms of one text: compact, without any white space, and indented, two spaces a level. Strings
are written with the fewest escapes that JSON allows, and doubles with the fewest digits that read
back, positional for the decimal exponents of `positionalExponents`.
-/

set_option autoImplicit false

namespace ClientSynth.Json

/-! ## Strings -/

/-- A lower-case hexadecimal digit. -/
def hexDigit (n : Nat) : Char :=
  if n < 10 then Char.ofNat ('0'.toNat + n) else Char.ofNat ('a'.toNat + (n - 10))

/-- A character as it stands in a string: quotes, backslashes and control characters are escaped,
all others stand for themselves. -/
def escape (c : Char) : List Char :=
  if c = '"' then ['\\', '"']
  else if c = '\\' then ['\\', '\\']
  else if c = '\x08' then ['\\', 'b']
  else if c = '\x0c' then ['\\', 'f']
  else if c = '\n' then ['\\', 'n']
  else if c = '\r' then ['\\', 'r']
  else if c = '\t' then ['\\', 't']
  else if c.val < 0x20 then ['\\', 'u', '0', '0', hexDigit (c.toNat / 16), hexDigit (c.toNat % 16)]
  else [c]

/-- A string in quotes. -/
def quote (cs : List Char) : List Char :=
  '"' :: (cs.flatMap escape ++ ['"'])

/-! ## Numbers -/

def natChars (n : Nat) : List Char :=
  Nat.toDigits 10 n

/-- The digits of a whole number, after a minus sign if it is negative. -/
def intChars (n : Int) : List Char :=
  match n with
  | .ofNat n => natChars n
  | .negSucc n => '-' :: natChars (n + 1)

/-- The decimal exponents from which and up to which a double is written positionally. -/
def positionalExponents : Int × Int := (-5, 15)

/-- A double with the fewest digits that read back: `0.5`, `10.0`, `1e-7`, `2.5e+16`. A positional
form always has a decimal point, and an exponent always has a sign. -/
def doubleChars (x : Binary64) : List Char :=
  let (d, p) := Decimal.shortest x
  let digits := natChars d
  let exponent : Int := p + ((digits.length : Nat) : Int) - 1
  let magnitude :=
    if positionalExponents.1 ≤ exponent ∧ exponent ≤ positionalExponents.2 then
      if 0 ≤ p then digits ++ List.replicate p.toNat '0' ++ ['.', '0']
      else if 0 ≤ exponent then
        digits.take (exponent.toNat + 1) ++ '.' :: digits.drop (exponent.toNat + 1)
      else '0' :: '.' :: (List.replicate (-exponent - 1).toNat '0' ++ digits)
    else
      let significand :=
        match digits with
        | first :: rest@(_ :: _) => first :: '.' :: rest
        | ds => ds
      significand ++ 'e' :: (if exponent < 0 then '-' else '+') :: natChars exponent.natAbs
  if x.isNegative then '-' :: magnitude else magnitude

def numberChars : Number → List Char
  | .whole n => intChars n.val
  | .double x => doubleChars x

/-! ## Compact form -/

mutual

/-- The compact text of a value. -/
def toChars : Json → List Char
  | .null => "null".toList
  | .bool true => "true".toList
  | .bool false => "false".toList
  | .number n => numberChars n
  | .string s => quote s.toList
  | .array [] => ['[', ']']
  | .array (v :: vs) => '[' :: (toChars v ++ itemsToChars vs)
  | .object [] => ['{', '}']
  | .object ((k, v) :: ms) => '{' :: (quote k.toList ++ ':' :: (toChars v ++ membersToChars ms))

/-- The items after the first, each after a comma, and the closing bracket. -/
def itemsToChars : List Json → List Char
  | [] => [']']
  | v :: vs => ',' :: (toChars v ++ itemsToChars vs)

/-- The members after the first, each after a comma, and the closing brace. -/
def membersToChars : List (String × Json) → List Char
  | [] => ['}']
  | (k, v) :: ms => ',' :: (quote k.toList ++ ':' :: (toChars v ++ membersToChars ms))

end

/-- The compact text of a value as a string. -/
def render (v : Json) : String :=
  String.ofList v.toChars

/-! ## Indented form -/

/-- A line break and the indentation of the level `n`. -/
def breakTo (n : Nat) : List Char :=
  '\n' :: List.replicate (2 * n) ' '

mutual

/-- The indented text of a value that stands at level `n`. -/
def indentedAt (n : Nat) : Json → List Char
  | .array [] => ['[', ']']
  | .array (v :: vs) =>
    '[' :: (breakTo (n + 1) ++ (indentedAt (n + 1) v ++ (indentedItems n vs ++ [']'])))
  | .object [] => ['{', '}']
  | .object ((k, v) :: ms) =>
    '{' :: (breakTo (n + 1) ++ (quote k.toList ++ ':' :: ' ' :: (indentedAt (n + 1) v ++
      (indentedMembers n ms ++ ['}']))))
  | .null => "null".toList
  | .bool true => "true".toList
  | .bool false => "false".toList
  | .number m => numberChars m
  | .string s => quote s.toList

/-- The items after the first, one a line, and the break before the closing bracket. -/
def indentedItems (n : Nat) : List Json → List Char
  | [] => breakTo n
  | v :: vs => ',' :: (breakTo (n + 1) ++ (indentedAt (n + 1) v ++ indentedItems n vs))

/-- The members after the first, one a line, and the break before the closing brace. -/
def indentedMembers (n : Nat) : List (String × Json) → List Char
  | [] => breakTo n
  | (k, v) :: ms =>
    ',' :: (breakTo (n + 1) ++ (quote k.toList ++ ':' :: ' ' :: (indentedAt (n + 1) v ++
      indentedMembers n ms)))

end

def renderIndented (v : Json) : String :=
  String.ofList (v.indentedAt 0)

end ClientSynth.Json

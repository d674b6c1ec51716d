import ClientSynth.Text.Invisible

/-!
# `ClientSynth.Text.Literal` — string literals

Emitted source and messages show strings as literals in double quotes: a quote and a backslash after
a backslash, four controls by letter, and what shows nothing of its own by number. A single quote
stands for itself.

No literal has a line break in it, whatever the string holds.
-/

set_option autoImplicit false

namespace ClientSynth.Text

/-- The lower-case hexadecimal digits of a number. -/
def hexChars (n : Nat) : List Char :=
  Nat.toDigits 16 n

/-- A character as it stands in a literal. -/
def literalChar (c : Char) : List Char :=
  if c = '"' then ['\\', '"']
  else if c = '\\' then ['\\', '\\']
  else if c = '\n' then ['\\', 'n']
  else if c = '\r' then ['\\', 'r']
  else if c = '\t' then ['\\', 't']
  else if c = '\x00' then ['\\', '0']
  else if isInvisible c then '\\' :: 'u' :: '{' :: (hexChars c.toNat ++ ['}'])
  else [c]

/-- The literal for a text. -/
def literal (cs : List Char) : List Char :=
  '"' :: (cs.flatMap literalChar ++ ['"'])

def literalOf (s : String) : String :=
  String.ofList (literal s.toList)

end ClientSynth.Text

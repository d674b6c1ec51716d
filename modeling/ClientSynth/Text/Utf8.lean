/-!
# `ClientSynth.Text.Utf8` — reading bytes that may not be UTF-8

`decodeLossy` reads bytes as UTF-8 and puts U+FFFD where they are not. A run of bytes that begins a
character but does not end it is replaced as one; any other byte that does not belong is replaced by
itself.
-/

set_option autoImplicit false

namespace ClientSynth.Text

/-- What stands for bytes that are not UTF-8. -/
def replacement : Char := '\uFFFD'

/-- How many bytes follow the first byte of a character, with the payload of the first byte and the
range of the second; nothing for a byte that begins no character. -/
def leadByte? (b : UInt8) : Option (Nat × Nat × UInt8 × UInt8) :=
  if b < 0x80 then some (0, b.toNat, 0x80, 0xBF)
  else if b < 0xC2 then none
  else if b < 0xE0 then some (1, b.toNat - 0xC0, 0x80, 0xBF)
  else if b = 0xE0 then some (2, 0, 0xA0, 0xBF)
  else if b = 0xED then some (2, 0xD, 0x80, 0x9F)
  else if b < 0xF0 then some (2, b.toNat - 0xE0, 0x80, 0xBF)
  else if b = 0xF0 then some (3, 0, 0x90, 0xBF)
  else if b < 0xF4 then some (3, b.toNat - 0xF0, 0x80, 0xBF)
  else if b = 0xF4 then some (3, 4, 0x80, 0x8F)
  else none

/-- The character whose code begins with `code` and goes on for `owed` bytes, the first of which is
between `lo` and `hi`; with the bytes that are left. -/
def decodeRest (owed code : Nat) (lo hi : UInt8) : List UInt8 → Char × List UInt8
  | [] => (if owed = 0 then Char.ofNat code else replacement, [])
  | b :: bs =>
    if owed = 0 then (Char.ofNat code, b :: bs)
    else if lo ≤ b ∧ b ≤ hi then decodeRest (owed - 1) (code * 64 + (b.toNat - 0x80)) 0x80 0xBF bs
    else (replacement, b :: bs)

theorem length_decodeRest_le (owed code : Nat) (lo hi : UInt8) (bs : List UInt8) :
    (decodeRest owed code lo hi bs).2.length ≤ bs.length := by
  induction bs generalizing owed code lo hi with
  | nil => simp [decodeRest]
  | cons b bs ih =>
    rw [decodeRest]
    split
    · simp
    · split
      · have := ih (owed - 1) (code * 64 + (b.toNat - 0x80)) 0x80 0xBF
        simp only [List.length_cons]
        omega
      · simp

/-- The characters of some bytes. -/
def decodeLossy : List UInt8 → List Char
  | [] => []
  | b :: bs =>
    match leadByte? b with
    | none => replacement :: decodeLossy bs
    | some (owed, code, lo, hi) =>
      (decodeRest owed code lo hi bs).1 :: decodeLossy (decodeRest owed code lo hi bs).2
termination_by bs => bs.length
decreasing_by
  · simp
  · have := length_decodeRest_le owed code lo hi bs
    simp only [List.length_cons]
    omega

end ClientSynth.Text

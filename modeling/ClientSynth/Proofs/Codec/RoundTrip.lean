import ClientSynth.Codec.Basic
import ClientSynth.Proofs.Json.Values

/-!
# `ClientSynth.Proofs.Codec.RoundTrip` — bodies give their values back

A body is the text of a value in UTF-8. On the way back three things could take the value away: the
bytes could be none of UTF-8, the text could be read as another value, and a body of nothing but blanks
is taken for `null` before anything is read. The first cannot be, since the bytes are those of a text;
the second is `Json.ofString?_render`; and the third does not happen, since every text of a value starts
with a character that shows (`exists_head_toChars`).

> `encode_decode`: a value can be encoded exactly if it has the shape of the type, and it comes back
> exactly if it is nested no deeper than 127 levels.
-/

set_option autoImplicit false

namespace ClientSynth

/-! ## Texts that show -/

namespace Json

/-- Whether a character is one of ASCII that shows. -/
def IsGraphic (c : Char) : Prop :=
  0x20 < c.toNat ∧ c.toNat < 0x7F

theorem isGraphic_of_isDigit {c : Char} (h : c.isDigit = true) : IsGraphic c := by
  obtain ⟨hlow, hhigh⟩ : '0'.val ≤ c.val ∧ c.val ≤ '9'.val := by
    simpa [Char.isDigit] using h
  have hlow' : 48 ≤ c.toNat := UInt32.le_iff_toNat_le.mp hlow
  have hhigh' : c.toNat ≤ 57 := UInt32.le_iff_toNat_le.mp hhigh
  unfold IsGraphic
  omega

theorem exists_head_intChars (n : Int) :
    ∃ c cs, intChars n = c :: cs ∧ IsGraphic c := by
  cases n with
  | ofNat n =>
    cases hd : natChars n with
    | nil => exact absurd hd Nat.toDigits_ne_nil
    | cons d ds =>
      have hdigit : d.isDigit = true := Token.isDigit_of_mem_natChars (n := n) (by simp [hd])
      exact ⟨d, ds, hd, isGraphic_of_isDigit hdigit⟩
  | negSucc n => exact ⟨'-', _, rfl, by decide, by decide⟩

/-- The text of a value starts with a quote, a bracket, a sign, a digit or a letter. -/
theorem exists_head_toChars :
    ∀ {v : Json}, v.HasNoDouble → ∃ c cs, v.toChars = c :: cs ∧ IsGraphic c
  | .null, _ => ⟨'n', _, rfl, by decide, by decide⟩
  | .bool true, _ => ⟨'t', _, rfl, by decide, by decide⟩
  | .bool false, _ => ⟨'f', _, rfl, by decide, by decide⟩
  | .number (.whole n), _ => exists_head_intChars n.val
  | .string _, _ => ⟨'"', _, rfl, by decide, by decide⟩
  | .array [], _ | .array (_ :: _), _ => ⟨'[', _, rfl, by decide, by decide⟩
  | .object [], _ | .object (_ :: _), _ => ⟨'\x7b', _, rfl, by decide, by decide⟩

end Json

namespace Codec

open Json (IsGraphic)

/-- A text that starts with a character that shows has no body of blanks. -/
theorem not_all_isBlankByte {c : Char} (hc : IsGraphic c) (cs : List Char) :
    (String.ofList (c :: cs)).toUTF8.data.toList.all isBlankByte = false := by
  have hbytes : (String.ofList (c :: cs)).toUTF8.data.toList =
      (c :: cs).flatMap String.utf8EncodeChar := List.toList_data_toByteArray
  have hone : String.utf8EncodeChar c = [UInt8.ofNat c.toNat] := by
    have hle : c.val.toNat ≤ 127 := Nat.le_of_lt hc.2
    simp only [String.utf8EncodeChar, if_pos hle]
    rfl
  have hall : ∀ n < 0x7F, 0x20 < n → isBlankByte (UInt8.ofNat n) = false := by decide
  rw [hbytes, List.flatMap_cons, hone, List.singleton_append, List.all_cons,
    hall c.toNat hc.2 hc.1, Bool.false_and]

theorem fromUTF8?_toUTF8 (s : String) : String.fromUTF8? s.toUTF8 = some s := by
  unfold String.fromUTF8?
  rw [String.toUTF8_eq_toByteArray, dif_pos s.isValidUTF8]
  rfl

/-! ## Bodies -/

theorem valueOf?_render {v : Json} (hsorted : v.IsSorted) (hnumbers : v.HasNoDouble) :
    valueOf? v.render.toUTF8 = if v.depth ≤ Json.maxDepth then some v else none := by
  obtain ⟨c, cs, htext, hc⟩ := Json.exists_head_toChars hnumbers
  have hblank : v.render.toUTF8.data.toList.all isBlankByte = false := by
    rw [Json.render, htext]
    exact not_all_isBlankByte hc cs
  have hread := Json.ofString?_render hsorted hnumbers
  rw [valueOf?, if_neg (Bool.not_eq_true _ ▸ hblank), fromUTF8?_toUTF8]
  exact hread

/-- A value is encoded exactly if it has the shape of the type, and then as its text. -/
theorem encode_eq_ok_iff {type : TypeExpr} {v : Json} {bytes : ByteArray} :
    encode type v = .ok bytes ↔ check type v = none ∧ v.render.toUTF8 = bytes := by
  unfold encode
  cases check type v <;> simp

/-- **What was encoded is decoded again.** A value whose objects list their members in ascending order,
as all that were read do, and that has no doubles is encoded for a type exactly if it has the shape of
that; and what it is encoded as is decoded to that value, exactly if arrays and objects in it are nested
at most 127 deep. -/
theorem encode_decode (fault : ByteArray → String) (type : TypeExpr) (v : Json)
    (hsorted : v.IsSorted) (hnumbers : v.HasNoDouble) :
    ((∃ bytes, encode type v = .ok bytes) ↔ check type v = none) ∧
      ∀ bytes, encode type v = .ok bytes → (decode fault type bytes = .ok v ↔ v.depth ≤ 127) := by
  refine ⟨?_, fun bytes h => ?_⟩
  · constructor
    · rintro ⟨bytes, h⟩
      exact (encode_eq_ok_iff.mp h).1
    · intro h
      exact ⟨_, encode_eq_ok_iff.mpr ⟨h, rfl⟩⟩
  · obtain ⟨hshape, rfl⟩ := encode_eq_ok_iff.mp h
    have hvalue := valueOf?_render hsorted hnumbers
    unfold decode
    by_cases hdepth : v.depth ≤ Json.maxDepth
    · rw [hvalue, if_pos hdepth]
      dsimp only
      rw [hshape]
      exact ⟨fun _ => hdepth, fun _ => rfl⟩
    · rw [hvalue, if_neg hdepth]
      constructor
      · intro h
        cases h
      · intro h
        exact absurd h hdepth

/-- The largest and the smallest number, characters that are escaped, and what is empty. -/
def edges : Json :=
  .object
    [("", .array []), ("\n\"\\", .object []),
     ("é", .array [.number (.whole ⟨0xFFFFFFFFFFFFFFFF, by decide, by decide⟩),
       .number (.whole ⟨-0x8000000000000000, by decide, by decide⟩), .string "\x00\u2028", .null])]

theorem encode_decode_edges :
    edges.IsSorted ∧ edges.HasNoDouble ∧
      ∃ bytes, encode (.named "Edges") edges = .ok bytes ∧
        decode (fun _ => "malformed") (.named "Edges") bytes = .ok edges := by
  have hsorted : edges.IsSorted := by
    simp only [edges, Json.IsSorted, Json.AllSorted, Json.AllMembersSorted]
    decide +kernel
  have hnumbers : edges.HasNoDouble := by
    simp [edges, Json.HasNoDouble, Json.AllHaveNoDouble, Json.MembersHaveNoDouble]
  obtain ⟨hencodes, hdecodes⟩ :=
    encode_decode (fun _ => "malformed") (.named "Edges") edges hsorted hnumbers
  obtain ⟨bytes, hbytes⟩ := hencodes.mpr rfl
  exact ⟨hsorted, hnumbers, bytes, hbytes, (hdecodes bytes hbytes).mpr (by decide)⟩

end Codec

end ClientSynth

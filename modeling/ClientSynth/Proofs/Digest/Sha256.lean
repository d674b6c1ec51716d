import ClientSynth.Digest.Sha256
import ClientSynth.Proofs.Lists

/-!
# `ClientSynth.Proofs.Digest.Sha256` — when two fingerprints are one

The text of a digest is as good as the digest: eight words in eight digits each, so nothing of it is
lost. What is left to know about the texts that are digested is whether their digests are equal, and
the bytes that are digested are as good as the text (`toUTF8_toList_inj`).

> `ofText_eq_iff`: two texts have one fingerprint exactly when their bytes have one digest.
-/

set_option autoImplicit false

namespace ClientSynth.Sha256

/-! ## Bytes -/

/-- Having collected the first `i` bytes, the loop comes to all of them. -/
theorem toList_loop_take (bytes : ByteArray) (i : Nat) (hi : i ≤ bytes.size) :
    ByteArray.toList.loop bytes i (bytes.data.toList.take i).reverse = bytes.data.toList := by
  induction hleft : bytes.size - i generalizing i with
  | zero =>
    have hall : bytes.data.toList.length ≤ i := by
      rw [Array.length_toList]
      exact Nat.sub_eq_zero_iff_le.mp hleft
    rw [ByteArray.toList.loop, if_neg (by omega), List.reverse_reverse, List.take_of_length_le hall]
  | succ left ih =>
    have hlt : i < bytes.size := by omega
    have hnext : (bytes.data.toList.take (i + 1)).reverse =
        bytes.get! i :: (bytes.data.toList.take i).reverse := by
      have hget : bytes.data.toList[i]? = some (bytes.get! i) := by
        simp [ByteArray.get!, hlt]
      rw [List.take_add_one, hget, Option.toList_some, List.reverse_append]
      rfl
    rw [ByteArray.toList.loop, if_pos hlt, ← hnext]
    exact ih (i + 1) hlt (by omega)

theorem toList_eq (bytes : ByteArray) : bytes.toList = bytes.data.toList :=
  toList_loop_take bytes 0 (Nat.zero_le _)

theorem toUTF8_toList_inj {s t : String} : s.toUTF8.toList = t.toUTF8.toList ↔ s = t := by
  rw [toList_eq, toList_eq, Array.toList_inj, ← ByteArray.ext_iff]
  exact String.toByteArray_inj

/-! ## Digests -/

/-- A text is digested character by character. -/
theorem ofText_ofList (cs : List Char) :
    ofText (String.ofList cs) =
      String.ofList ((digest (cs.flatMap String.utf8EncodeChar)).flatMap hexWord) := by
  have hbytes : (String.ofList cs).toUTF8.data.toList = cs.flatMap String.utf8EncodeChar :=
    List.toList_data_toByteArray
  rw [ofText, toList_eq, hbytes]

theorem length_digest (message : List UInt8) : (digest message).length = 8 := rfl

theorem length_hexWord (w : UInt32) : (hexWord w).length = 8 := by
  simp [hexWord]

theorem digitChar_inj : ∀ m < 16, ∀ n < 16, Nat.digitChar m = Nat.digitChar n → m = n := by
  decide

/-- Numbers with the same last `k` digits to the base 16 are the same up to there. -/
theorem mod_eq_of_digits {m n : Nat} :
    ∀ k, (∀ i < k, m / Nat.pow 16 i % 16 = n / Nat.pow 16 i % 16) →
      m % Nat.pow 16 k = n % Nat.pow 16 k
  | 0, _ => (Nat.mod_one m).trans (Nat.mod_one n).symm
  | k + 1, h => by
    have hsplit : ∀ x, x % Nat.pow 16 (k + 1) =
        x % Nat.pow 16 k + Nat.pow 16 k * (x / Nat.pow 16 k % 16) := fun _ => Nat.mod_pow_succ
    have hlower := mod_eq_of_digits k fun i hi => h i (Nat.lt_succ_of_lt hi)
    rw [hsplit, hsplit, hlower, h k (Nat.lt_succ_self k)]

theorem hexWord_inj {v w : UInt32} (h : hexWord v = hexWord w) : v = w := by
  have hdigits : ∀ i < 8, v.toNat / Nat.pow 16 i % 16 = w.toNat / Nat.pow 16 i % 16 := by
    intro i hi
    have hchars := List.map_inj_left.mp h (7 - i) (by simp; omega)
    have hback : 7 - (7 - i) = i := by omega
    rw [hback] at hchars
    exact digitChar_inj _ (Nat.mod_lt _ (by decide)) _ (Nat.mod_lt _ (by decide)) hchars
  have hlt : ∀ u : UInt32, u.toNat < Nat.pow 16 8 := fun u => u.toNat_lt
  have hmod := mod_eq_of_digits 8 hdigits
  rw [Nat.mod_eq_of_lt (hlt v), Nat.mod_eq_of_lt (hlt w)] at hmod
  exact UInt32.toNat_inj.mp hmod

theorem ofText_eq_iff {s t : String} :
    ofText s = ofText t ↔ digest s.toUTF8.toList = digest t.toUTF8.toList := by
  constructor
  · intro h
    have hchars := String.ofList_injective h
    exact flatMap_inj length_hexWord (fun _ _ => hexWord_inj)
      ((length_digest _).trans (length_digest _).symm) hchars
  · intro h
    rw [ofText, ofText, h]

end ClientSynth.Sha256

/-!
# `ClientSynth.Text.Blank` — white space and trimming

Every text field of a contract is *blank* when nothing but white space is in it, and every type
expression is read after trimming. White space is here the Unicode property `White_Space`: more
than the characters a keyboard makes (`U+0085`, `U+00A0`, `U+3000` are in), and fewer than look
empty (`U+200B` and `U+FEFF` are not).

The one fact the rest of the library uses: **trimming leaves nothing exactly when the text was
blank** (`trim_eq_nil_iff`).
-/

set_option autoImplicit false

namespace ClientSynth.Text

/-- The characters with the Unicode property `White_Space`. -/
def isBlank (c : Char) : Bool :=
  (0x9 ≤ c.val && c.val ≤ 0xD) || c.val == 0x20 || c.val == 0x85 || c.val == 0xA0 ||
  c.val == 0x1680 || (0x2000 ≤ c.val && c.val ≤ 0x200A) || c.val == 0x2028 || c.val == 0x2029 ||
  c.val == 0x202F || c.val == 0x205F || c.val == 0x3000

/-- The text without the white space at its start. -/
def trimStart (cs : List Char) : List Char :=
  cs.dropWhile isBlank

/-- The text without the white space at its end. -/
def trimEnd (cs : List Char) : List Char :=
  (cs.reverse.dropWhile isBlank).reverse

/-- The text without the white space at either end. -/
def trim (cs : List Char) : List Char :=
  trimEnd (trimStart cs)

/-- A text with no character but white space. -/
def IsBlank (s : String) : Prop :=
  s.toList.all isBlank = true

instance (s : String) : Decidable (IsBlank s) :=
  inferInstanceAs (Decidable (_ = true))

/-! ## Trimming -/

theorem trimStart_eq_nil_iff :
    ∀ (cs : List Char), trimStart cs = [] ↔ ∀ c ∈ cs, isBlank c = true
  | [] => by simp [trimStart]
  | c :: cs => by
    by_cases h : isBlank c = true
    · have ih := trimStart_eq_nil_iff cs
      rw [trimStart] at ih
      rw [trimStart, List.dropWhile_cons_of_pos h, ih, List.forall_mem_cons, and_iff_right h]
    · rw [trimStart, List.dropWhile_cons_of_neg h]
      exact ⟨fun hs => (nomatch hs), fun hs => absurd (hs c (List.mem_cons_self ..)) h⟩

theorem trimEnd_eq_nil_iff (cs : List Char) : trimEnd cs = [] ↔ ∀ c ∈ cs, isBlank c = true := by
  have h := trimStart_eq_nil_iff cs.reverse
  rw [trimStart] at h
  rw [trimEnd, List.reverse_eq_nil_iff, h]
  exact forall_congr' fun c => by rw [List.mem_reverse]

theorem length_trimStart_le (cs : List Char) : (trimStart cs).length ≤ cs.length :=
  (List.dropWhile_sublist _).length_le

theorem length_trimEnd_le (cs : List Char) : (trimEnd cs).length ≤ cs.length := by
  simpa [trimEnd] using (List.dropWhile_sublist isBlank (l := cs.reverse)).length_le

/-- Trimming never lengthens a text, which is what lets readers recurse on trimmed parts. -/
theorem length_trim_le (cs : List Char) : (trim cs).length ≤ cs.length :=
  Nat.le_trans (length_trimEnd_le _) (length_trimStart_le cs)

/-- What trimming the start leaves is empty or starts with a character that is not blank. -/
theorem trimStart_head : ∀ (cs : List Char) {rest : List Char} {c : Char},
    trimStart cs = c :: rest → isBlank c = false
  | [], _, _, h => by simp [trimStart] at h
  | d :: cs, rest, c, h => by
    by_cases hd : isBlank d = true
    · exact trimStart_head cs (by simpa [trimStart, List.dropWhile_cons, hd] using h)
    · simp only [trimStart, List.dropWhile_cons, hd] at h
      cases h
      simpa using hd

/-- **Trimming leaves nothing exactly when the text is blank.** -/
theorem trim_eq_nil_iff (cs : List Char) : trim cs = [] ↔ ∀ c ∈ cs, isBlank c = true := by
  rw [trim, trimEnd_eq_nil_iff]
  refine ⟨fun h => (trimStart_eq_nil_iff cs).1 ?_,
    fun h => by simp [(trimStart_eq_nil_iff cs).2 h]⟩
  cases hd : trimStart cs with
  | nil => rfl
  | cons c rest => exact absurd (h c (by simp [hd])) (by simp [trimStart_head cs hd])

end ClientSynth.Text

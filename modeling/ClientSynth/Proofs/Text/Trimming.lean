import ClientSynth.Text.Blank
import Mathlib.Data.List.DropRight

/-!
# `ClientSynth.Proofs.Text.Trimming` — what trimming leaves

A text is what trimming leaves of it between blanks (`trim_spec`), and what trimming leaves neither
starts nor ends with a blank (`isTrimmed_trim`). The two say all there is to say about `trim`; a
reader that trims what it is given can be followed with them and without looking into it.
-/

set_option autoImplicit false

namespace ClientSynth.Text

/-- A text that neither starts nor ends with white space. -/
def IsTrimmed (cs : List Char) : Prop :=
  (∀ c ∈ cs.head?, isBlank c = false) ∧ ∀ c ∈ cs.getLast?, isBlank c = false

theorem trimStart_eq_self {cs : List Char} (h : ∀ c ∈ cs.head?, isBlank c = false) :
    trimStart cs = cs := by
  cases cs with
  | nil => rfl
  | cons c cs => exact List.dropWhile_cons_of_neg (by simpa using h c rfl)

theorem trimEnd_eq_self {cs : List Char} (h : ∀ c ∈ cs.getLast?, isBlank c = false) :
    trimEnd cs = cs := by
  have hstart : trimStart cs.reverse = cs.reverse :=
    trimStart_eq_self fun c hc => h c (by simpa using hc)
  rw [trimStart] at hstart
  rw [trimEnd, hstart, List.reverse_reverse]

theorem trim_eq_self {cs : List Char} (h : IsTrimmed cs) : trim cs = cs := by
  rw [trim, trimStart_eq_self h.1, trimEnd_eq_self h.2]

theorem trimEnd_prefix (cs : List Char) : trimEnd cs <+: cs :=
  List.rdropWhile_prefix isBlank cs

/-- What trimming leaves neither starts nor ends with a blank. -/
theorem isTrimmed_trim (cs : List Char) : IsTrimmed (trim cs) := by
  constructor
  · intro c hc
    obtain ⟨after, hafter⟩ := trimEnd_prefix (trimStart cs)
    cases htrim : trim cs with
    | nil => simp [htrim] at hc
    | cons d rest =>
      -- Trimming the end keeps the first character, unless it leaves nothing.
      obtain rfl : d = c := by simpa [htrim] using hc
      rw [trim] at htrim
      rw [htrim] at hafter
      exact trimStart_head cs hafter.symm
  · intro c hc
    have hne : (trimStart cs).rdropWhile isBlank ≠ [] := by
      intro hnil
      have htrim : trim cs = [] := hnil
      simp [htrim] at hc
    have hlast := List.rdropWhile_last_not isBlank (trimStart cs) hne
    have hc' : ((trimStart cs).rdropWhile isBlank).getLast? = some c := hc
    rw [List.getLast?_eq_some_getLast hne, Option.some.injEq] at hc'
    simpa [hc'] using hlast

@[simp] theorem trim_trim (cs : List Char) : trim (trim cs) = trim cs :=
  trim_eq_self (isTrimmed_trim cs)

/-- A text is what trimming leaves of it, between blanks. -/
theorem trim_spec (cs : List Char) :
    ∃ before after, cs = before ++ trim cs ++ after ∧ (∀ c ∈ before, isBlank c = true) ∧
      ∀ c ∈ after, isBlank c = true := by
  refine ⟨cs.takeWhile isBlank, (trimStart cs).rtakeWhile isBlank, ?_, ?_, ?_⟩
  · have hend : trim cs ++ (trimStart cs).rtakeWhile isBlank = trimStart cs :=
      List.rdropWhile_append_rtakeWhile
    rw [List.append_assoc, hend]
    exact (List.takeWhile_append_dropWhile (p := isBlank)).symm
  · intro c hc
    exact List.mem_takeWhile_imp hc
  · intro c hc
    exact List.mem_rtakeWhile_imp hc

theorem trim_cons_of_blank {c : Char} (hc : isBlank c = true) (cs : List Char) :
    trim (c :: cs) = trim cs := by
  rw [trim, trim, trimStart, trimStart, List.dropWhile_cons_of_pos hc]

/-- What stands between blanks is what trimming leaves, if it neither starts nor ends with one. -/
theorem trim_between {before cs after : List Char} (h : IsTrimmed cs)
    (hbefore : ∀ c ∈ before, isBlank c = true) (hafter : ∀ c ∈ after, isBlank c = true) :
    trim (before ++ cs ++ after) = cs := by
  have hstart : trimStart (before ++ cs ++ after) = trimStart (cs ++ after) := by
    rw [trimStart, trimStart, List.append_assoc, List.dropWhile_append_of_pos hbefore]
  have hend : trimEnd (cs ++ after) = cs := by
    rw [trimEnd, List.reverse_append, List.dropWhile_append_of_pos (by simpa using hafter)]
    exact trimEnd_eq_self h.2
  rw [trim, hstart]
  cases cs with
  | nil =>
    have hnil : trimStart ([] ++ after) = [] := (trimStart_eq_nil_iff after).mpr hafter
    rw [hnil]
    rfl
  | cons c cs =>
    rw [trimStart_eq_self (by simpa using h.1), hend]

theorem trim_blanks_append {blanks : List Char} (h : ∀ c ∈ blanks, isBlank c = true)
    (cs : List Char) : trim (blanks ++ cs) = trim cs := by
  obtain ⟨before, after, hcs, hbefore, hafter⟩ := trim_spec cs
  calc trim (blanks ++ cs) = trim ((blanks ++ before) ++ trim cs ++ after) := by
        rw [List.append_assoc, List.append_assoc, ← List.append_assoc before, ← hcs]
    _ = trim cs := trim_between (isTrimmed_trim cs) (List.forall_mem_append.mpr ⟨h, hbefore⟩) hafter

theorem trim_append_blanks {blanks : List Char} (h : ∀ c ∈ blanks, isBlank c = true)
    (cs : List Char) : trim (cs ++ blanks) = trim cs := by
  obtain ⟨before, after, hcs, hbefore, hafter⟩ := trim_spec cs
  calc trim (cs ++ blanks) = trim (before ++ trim cs ++ (after ++ blanks)) := by
        rw [← List.append_assoc _ after, ← hcs]
    _ = trim cs := trim_between (isTrimmed_trim cs) hbefore (List.forall_mem_append.mpr ⟨hafter, h⟩)

/-- The printing characters of ASCII are not white space. -/
theorem isBlank_eq_false {c : Char} (hlo : 0x20 < c.toNat) (hhi : c.toNat < 0x7F) :
    isBlank c = false := by
  have hval : c.val.toNat = c.toNat := rfl
  simp only [isBlank, Bool.or_eq_false_iff, Bool.and_eq_false_iff, decide_eq_false_iff_not,
    beq_eq_false_iff_ne, ne_eq, UInt32.le_iff_toNat_le, ← UInt32.toNat_inj, UInt32.reduceToNat,
    hval]
  omega

/-- Trimming leaves something exactly when some character is not blank. -/
theorem trim_ne_nil_iff (cs : List Char) : trim cs ≠ [] ↔ ∃ c ∈ cs, isBlank c = false := by
  rw [Ne, trim_eq_nil_iff]
  simp

end ClientSynth.Text

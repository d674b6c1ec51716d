import ClientSynth.Json.Printer
import ClientSynth.Json.Token

/-!
# `ClientSynth.Proofs.Json.Tokens` — the words of a printed value

What the printer writes for a string or for a whole number is cut back into the one token that it
came from, whatever text follows. From these two the tokens of a whole value follow:

> `ofChars_toChars`: the text of a value without doubles is cut into the tokens of that value.

A number has no end of its own. Only the character after it says that it is over, so everything
about numbers asks that what follows does not go on with one (`EndsNumber`).
-/

set_option autoImplicit false

namespace ClientSynth.Json

namespace Token

/-! ## Strings -/

theorem hexDigit?_hexDigit {n : Nat} (h : n < 16) : hexDigit? (hexDigit n) = some n := by
  have hall : ∀ n < 16, hexDigit? (hexDigit n) = some n := by decide
  exact hall n h

/-- The escape of a control character. -/
theorem unicodeEscape?_hexDigit {c : Char} (h : c.toNat < 0x20) :
    unicodeEscape? '0' '0' (hexDigit (c.toNat / 16)) (hexDigit (c.toNat % 16)) =
      some (.char c) := by
  have hzero : hexDigit? '0' = some 0 := by decide
  have hhigh := hexDigit?_hexDigit (n := c.toNat / 16) (by omega)
  have hlow := hexDigit?_hexDigit (n := c.toNat % 16) (by omega)
  have hsum : (0 * 16 + 0) * 256 + (c.toNat / 16 * 16 + c.toNat % 16) = c.toNat := by omega
  have hnot : ¬ (0xD800 ≤ c.toNat ∧ c.toNat ≤ 0xDFFF) := by omega
  simp only [unicodeEscape?, hzero, hhigh, hlow, Option.bind_eq_bind, Option.bind_some, hsum,
    if_neg hnot, Char.ofNat_toNat]
  rfl

theorem scanString?_letter {l c : Char} (h : letterEscape? l = some c) (hl : l ≠ 'u')
    (rest : List Char) :
    scanString? ('\\' :: l :: rest) = (scanString? rest).map fun p => (.char c :: p.1, p.2) := by
  rw [scanString?.eq_def]
  split
  · rename_i heq; cases heq
  · rename_i heq; cases heq; exact absurd rfl hl
  · rename_i heq
    cases heq
    simp only [h, Option.bind_eq_bind, Option.bind_some]
    cases scanString? rest <;> rfl
  · rename_i hnot heq
    cases heq
    exact (hnot _ _ rfl rfl).elim
  · rename_i heq; cases heq

theorem scanString?_self {c : Char} (hquote : c ≠ '"') (hslash : c ≠ '\\')
    (hcontrol : ¬ c.val < 0x20) (rest : List Char) :
    scanString? (c :: rest) = (scanString? rest).map fun p => (.char c :: p.1, p.2) := by
  rw [scanString?.eq_def]
  split
  · rename_i heq; cases heq; exact absurd rfl hquote
  · rename_i heq; cases heq; exact absurd rfl hslash
  · rename_i heq; cases heq; exact absurd rfl hslash
  · rename_i heq
    cases heq
    simp only [hcontrol, hslash, or_self, if_false, Option.bind_eq_bind]
    cases scanString? rest <;> rfl
  · rename_i heq; cases heq

/-- A printed character is read as that character. -/
theorem scanString?_escape (c : Char) (rest : List Char) :
    scanString? (escape c ++ rest) =
      (scanString? rest).map fun p => (.char c :: p.1, p.2) := by
  unfold escape
  -- The seven escapes of one letter.
  iterate 7
    split
    · subst_vars; exact scanString?_letter rfl (by decide) rest
  split
  · rename_i hcontrol
    simp only [List.cons_append, List.nil_append, scanString?, unicodeEscape?_hexDigit hcontrol,
      Option.bind_eq_bind, Option.bind_some]
    cases scanString? rest <;> rfl
  · rename_i hquote hslash _ _ _ _ _ hcontrol
    exact scanString?_self hquote hslash hcontrol rest

theorem scanString?_quoted (cs rest : List Char) :
    scanString? (cs.flatMap escape ++ '"' :: rest) = some (cs.map .char, rest) := by
  induction cs with
  | nil => rfl
  | cons c cs ih =>
    rw [List.flatMap_cons, List.append_assoc, scanString?_escape, ih]
    rfl

theorem pairUp?_map_char (cs : List Char) : pairUp? (cs.map .char) = some cs := by
  induction cs with
  | nil => rfl
  | cons c cs ih => simp only [List.map_cons, pairUp?, ih, Option.map_some]

/-! ## Numbers -/

/-- Whether a text does not go on with a number that comes before it. -/
def EndsNumber : List Char → Prop
  | [] => True
  | c :: _ => c.isDigit = false ∧ c ≠ '.' ∧ c ≠ 'e' ∧ c ≠ 'E'

theorem isDigit_of_mem_natChars {n : Nat} {c : Char} (h : c ∈ natChars n) : c.isDigit = true :=
  Nat.isDigit_of_mem_toDigits (by decide) (by decide) h

theorem digitsValue_natChars (n : Nat) : digitsValue (natChars n) = n := by
  have hfold : (fun (m : Nat) (d : Char) => m * 10 + digitValue d) =
      fun m d => 10 * m + (d.toNat - '0'.toNat) := by
    funext m d
    rw [digitValue, Nat.mul_comm]
  rw [digitsValue, hfold]
  exact Nat.ofDigitChars_toDigits (by decide) (by decide)

/-- The digits of a number start with a zero only when there is no other digit. -/
theorem natChars_eq_zero_cons {n : Nat} {ds : List Char} (h : natChars n = '0' :: ds) :
    ds = [] := by
  induction n using Nat.strongRecOn generalizing ds with
  | ind n ih =>
    rw [natChars] at h
    by_cases hn : n < 10
    · rw [Nat.toDigits_of_lt_base hn] at h
      exact (List.cons.inj h).2.symm
    · rw [Nat.toDigits_of_base_le (by decide) (by omega)] at h
      -- Then the digits of `n / 10` start with a zero too, so they are that zero.
      cases hd : Nat.toDigits 10 (n / 10) with
      | nil => exact absurd hd Nat.toDigits_ne_nil
      | cons d ds' =>
        rw [hd, List.cons_append] at h
        obtain ⟨rfl, -⟩ := List.cons.inj h
        obtain rfl := ih (n / 10) (by omega) hd
        have hzero : n / 10 = 0 := by rw [← digitsValue_natChars (n / 10), natChars, hd]; rfl
        omega

theorem digits_natChars (n : Nat) {rest : List Char} (h : EndsNumber rest) :
    digits (natChars n ++ rest) = (natChars n, rest) := by
  have hall : ∀ c ∈ natChars n, c.isDigit = true := fun c hc => isDigit_of_mem_natChars hc
  rw [digits, List.takeWhile_append_of_pos hall, List.dropWhile_append_of_pos hall]
  cases rest with
  | nil => simp
  | cons c rest => simp [h.1]

theorem scanFraction?_of_endsNumber {rest : List Char} (h : EndsNumber rest) :
    scanFraction? rest = some ([], rest) := by
  unfold scanFraction?
  split
  · exact absurd rfl h.2.1
  · rfl

theorem scanExponent?_of_endsNumber {rest : List Char} (h : EndsNumber rest) :
    scanExponent? rest = some (none, rest) := by
  cases rest with
  | nil => rfl
  | cons c rest => exact if_neg fun he => he.elim h.2.2.1 h.2.2.2

/-- The parts of a printed whole number. -/
def wholeText (n : Int) : NumberText :=
  ⟨decide (n < 0), natChars n.natAbs, [], none⟩

theorem scanNumber?_unsigned {negative : Bool} {n : Nat} {cs rest : List Char}
    (hminus : scanMinus cs = (negative, natChars n ++ rest)) (h : EndsNumber rest) :
    scanNumber? cs = some (⟨negative, natChars n, [], none⟩, rest) := by
  rw [scanNumber?, hminus]
  dsimp only
  rw [digits_natChars n h]
  split
  · rename_i heq
    exact absurd (Prod.mk.inj heq).1 Nat.toDigits_ne_nil
  · rename_i heq
    exact absurd (natChars_eq_zero_cons (Prod.mk.inj heq).1) (by simp)
  · rename_i heq
    obtain ⟨rfl, rfl⟩ := Prod.mk.inj heq
    rw [scanFraction?_of_endsNumber h]
    simp only [Option.bind_eq_bind, Option.bind_some, scanExponent?_of_endsNumber h]
    rfl

theorem scanMinus_natChars (n : Nat) (rest : List Char) :
    scanMinus (natChars n ++ rest) = (false, natChars n ++ rest) := by
  cases hd : natChars n with
  | nil => exact absurd hd Nat.toDigits_ne_nil
  | cons d ds =>
    have hdigit : d.isDigit = true := isDigit_of_mem_natChars (n := n) (by simp [hd])
    unfold scanMinus
    split
    · rename_i heq
      obtain ⟨rfl, -⟩ := List.cons.inj heq
      exact absurd hdigit (by decide)
    · rfl

theorem scanNumber?_intChars (n : Int) {rest : List Char} (h : EndsNumber rest) :
    scanNumber? (intChars n ++ rest) = some (wholeText n, rest) := by
  cases n with
  | ofNat n =>
    have hsign : decide (Int.ofNat n < 0) = false := by simp
    rw [wholeText, hsign]
    exact scanNumber?_unsigned (scanMinus_natChars n rest) h
  | negSucc n =>
    have hsign : decide (Int.negSucc n < 0) = true := by simp
    rw [wholeText, hsign]
    exact scanNumber?_unsigned rfl h

/-- A printed whole number has its value. -/
theorem value?_wholeText (n : Whole) : (wholeText n.val).value? = some (.whole n) := by
  have hn : ¬ ((wholeText n.val).negative = true ∧ digitsValue (wholeText n.val).whole = 0) := by
    simp only [wholeText, digitsValue_natChars, decide_eq_true_eq]
    omega
  have hval : (if (wholeText n.val).negative then -(digitsValue (wholeText n.val).whole : Int)
      else digitsValue (wholeText n.val).whole) = n.val := by
    simp only [wholeText, digitsValue_natChars, decide_eq_true_eq]
    split <;> omega
  simp only [NumberText.value?, hval, Whole.ofInt?_val]
  exact if_pos ⟨rfl, rfl, hn⟩

/-! ## Tokens -/

theorem ofChars_of_scan (c : Char) (cs : List Char) {rest : List Char} {t : Token}
    (hc : isSpace c = false) (h : scan (c :: cs) = (t, rest)) :
    ofChars (c :: cs) = t :: ofChars rest := by
  rw [ofChars, hc, h]
  simp

theorem ofChars_quote (cs rest : List Char) :
    ofChars (quote cs ++ rest) = .string (some (String.ofList cs)) :: ofChars rest := by
  have hscan : scan ('"' :: (cs.flatMap escape ++ '"' :: rest)) =
      (.string (some (String.ofList cs)), rest) := by
    simp only [scan, scanString?_quoted, pairUp?_map_char, Option.map_some]
  simpa [quote] using ofChars_of_scan _ _ rfl hscan

/-- A number starts with a digit or with a minus sign. -/
theorem head_of_scanNumber? {c : Char} {cs rest : List Char} {t : NumberText}
    (h : scanNumber? (c :: cs) = some (t, rest)) : c.isDigit = true ∨ c = '-' := by
  by_cases hc : c = '-'
  · exact Or.inr hc
  · cases hdigit : c.isDigit with
    | true => exact Or.inl rfl
    | false =>
      have hminus : scanMinus (c :: cs) = (false, c :: cs) := by
        unfold scanMinus
        split
        · rename_i heq
          exact absurd (List.cons.inj heq).1 hc
        · rfl
      rw [scanNumber?, hminus] at h
      simp [digits, hdigit] at h

theorem ofChars_of_scanNumber? {cs rest : List Char} {t : NumberText}
    (h : scanNumber? cs = some (t, rest)) : ofChars cs = .number t.value? :: ofChars rest := by
  cases cs with
  | nil => cases h
  | cons c cs =>
    have hhead := head_of_scanNumber? h
    refine ofChars_of_scan c cs ?_ ?_
    · cases hspace : isSpace c with
      | false => rfl
      | true =>
        simp only [isSpace, Bool.or_eq_true, beq_iff_eq] at hspace
        rcases hspace with ((rfl | rfl) | rfl) | rfl <;> exact absurd hhead (by decide)
    · unfold scan
      split
      case h_11 => rw [h]
      all_goals
        rename_i heq
        obtain ⟨rfl, -⟩ := List.cons.inj heq
        exact absurd hhead (by decide)

end Token

/-! ## The tokens of a value -/

mutual

/-- Whether no number in a value is a double. -/
def HasNoDouble : Json → Prop
  | .number (.double _) => False
  | .array items => AllHaveNoDouble items
  | .object members => MembersHaveNoDouble members
  | _ => True

def AllHaveNoDouble : List Json → Prop
  | [] => True
  | v :: vs => HasNoDouble v ∧ AllHaveNoDouble vs

def MembersHaveNoDouble : List (String × Json) → Prop
  | [] => True
  | (_, v) :: ms => HasNoDouble v ∧ MembersHaveNoDouble ms

end

mutual

/-- The tokens of the text of a value. -/
def tokens : Json → List Token
  | .null => [.null]
  | .bool b => [.bool b]
  | .number n => [.number (some n)]
  | .string s => [.string (some s)]
  | .array [] => [.openBracket, .closeBracket]
  | .array (v :: vs) => .openBracket :: (tokens v ++ itemTokens vs)
  | .object [] => [.openBrace, .closeBrace]
  | .object ((k, v) :: ms) =>
    .openBrace :: .string (some k) :: .colon :: (tokens v ++ memberTokens ms)

/-- The tokens of the items after the first, and of the closing bracket. -/
def itemTokens : List Json → List Token
  | [] => [.closeBracket]
  | v :: vs => .comma :: (tokens v ++ itemTokens vs)

/-- The tokens of the members after the first, and of the closing brace. -/
def memberTokens : List (String × Json) → List Token
  | [] => [.closeBrace]
  | (k, v) :: ms => .comma :: .string (some k) :: .colon :: (tokens v ++ memberTokens ms)

end

theorem endsNumber_itemsToChars (vs : List Json) (rest : List Char) :
    Token.EndsNumber (itemsToChars vs ++ rest) := by
  cases vs <;> exact ⟨rfl, by decide, by decide, by decide⟩

theorem endsNumber_membersToChars (ms : List (String × Json)) (rest : List Char) :
    Token.EndsNumber (membersToChars ms ++ rest) := by
  rcases ms with - | ⟨⟨k, v⟩, ms⟩ <;> exact ⟨rfl, by decide, by decide, by decide⟩

open Token (ofChars ofChars_of_scan ofChars_quote EndsNumber)

theorem ofChars_key (k : String) (rest : List Char) :
    ofChars (quote k.toList ++ ':' :: rest) = .string (some k) :: .colon :: ofChars rest := by
  rw [ofChars_quote, String.ofList_toList, ofChars_of_scan ':' _ rfl rfl]

mutual

theorem ofChars_toChars : ∀ (v : Json) (rest : List Char), v.HasNoDouble → EndsNumber rest →
    ofChars (v.toChars ++ rest) = v.tokens ++ ofChars rest
  | .null, rest, _, _ => ofChars_of_scan _ _ rfl rfl
  | .bool true, rest, _, _ => ofChars_of_scan _ _ rfl rfl
  | .bool false, rest, _, _ => ofChars_of_scan _ _ rfl rfl
  | .number (.whole n), rest, _, hrest => by
    have hscan := Token.ofChars_of_scanNumber? (Token.scanNumber?_intChars n.val hrest)
    rw [Token.value?_wholeText] at hscan
    exact hscan
  | .string s, rest, _, _ => by
    simpa [toChars, tokens] using ofChars_quote s.toList rest
  | .array [], rest, _, _ => by
    have hopen := ofChars_of_scan '[' (']' :: rest) rfl rfl
    have hclose := ofChars_of_scan ']' rest rfl rfl
    rw [hclose] at hopen
    exact hopen
  | .array (v :: vs), rest, h, _ => by
    have hopen := ofChars_of_scan '[' (v.toChars ++ (itemsToChars vs ++ rest)) rfl rfl
    rw [ofChars_toChars v _ h.1 (endsNumber_itemsToChars vs rest), ofChars_itemsToChars vs rest h.2]
      at hopen
    simpa [toChars, tokens] using hopen
  | .object [], rest, _, _ => by
    have hopen := ofChars_of_scan '\x7b' ('\x7d' :: rest) rfl rfl
    have hclose := ofChars_of_scan '\x7d' rest rfl rfl
    rw [hclose] at hopen
    exact hopen
  | .object ((k, v) :: ms), rest, h, _ => by
    have hopen := ofChars_of_scan '\x7b'
      (quote k.toList ++ ':' :: (v.toChars ++ (membersToChars ms ++ rest))) rfl rfl
    rw [ofChars_key, ofChars_toChars v _ h.1 (endsNumber_membersToChars ms rest),
      ofChars_membersToChars ms rest h.2] at hopen
    simpa [toChars, tokens] using hopen

theorem ofChars_itemsToChars : ∀ (vs : List Json) (rest : List Char), AllHaveNoDouble vs →
    ofChars (itemsToChars vs ++ rest) = itemTokens vs ++ ofChars rest
  | [], rest, _ => ofChars_of_scan _ _ rfl rfl
  | v :: vs, rest, h => by
    have hcomma := ofChars_of_scan ',' (v.toChars ++ (itemsToChars vs ++ rest)) rfl rfl
    rw [ofChars_toChars v _ h.1 (endsNumber_itemsToChars vs rest), ofChars_itemsToChars vs rest h.2]
      at hcomma
    simpa [itemsToChars, itemTokens] using hcomma

theorem ofChars_membersToChars : ∀ (ms : List (String × Json)) (rest : List Char),
    MembersHaveNoDouble ms →
    ofChars (membersToChars ms ++ rest) = memberTokens ms ++ ofChars rest
  | [], rest, _ => ofChars_of_scan _ _ rfl rfl
  | (k, v) :: ms, rest, h => by
    have hcomma := ofChars_of_scan ','
      (quote k.toList ++ ':' :: (v.toChars ++ (membersToChars ms ++ rest))) rfl rfl
    rw [ofChars_key, ofChars_toChars v _ h.1 (endsNumber_membersToChars ms rest),
      ofChars_membersToChars ms rest h.2] at hcomma
    simpa [membersToChars, memberTokens] using hcomma

end

end ClientSynth.Json

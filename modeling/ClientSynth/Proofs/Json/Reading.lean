import ClientSynth.Json.Draft
import ClientSynth.Proofs.Json.Tokens

/-!
# `ClientSynth.Proofs.Json.Reading` — reading what was printed

`Draft.read` takes one token at a time and keeps the containers that are open. Over the tokens of a
value it comes to the draft of that value (`Json.draft`) with the same containers open as before,
whatever they are; so it does over a whole text.

> `Draft.ofChars_toChars`: the text of a value without doubles is read as that value, and nothing is
> left of it.
-/

set_option autoImplicit false

namespace ClientSynth.Json

mutual

/-- The draft of a value: it breaks off nowhere. -/
def draft : Json → Draft
  | .null => .null
  | .bool b => .bool b
  | .number n => .number (some n)
  | .string s => .string (some s)
  | .array items => .array (itemDrafts items) .closed
  | .object members => .object (memberDrafts members) .closed

def itemDrafts : List Json → List Draft
  | [] => []
  | v :: vs => draft v :: itemDrafts vs

def memberDrafts : List (String × Json) → List (Option String × Draft)
  | [] => []
  | (k, v) :: ms => (some k, draft v) :: memberDrafts ms

end

namespace Draft

theorem read_of_step {expect : Expect} {stack : List Open} {t : Token} {ts : List Token}
    (expect' : Expect) (stack' : List Open) (h : step expect stack t = some (expect', stack')) :
    read expect stack (t :: ts) = read expect' stack' ts := by
  cases expect with
  | next v =>
    cases stack with
    | nil => cases t <;> cases h
    | cons o stack => rw [read, h]; simp
  | _ => rw [read, h]; simp

/-- In an array that was just opened, a value may be due that is the first one. -/
theorem read_valueOrEnd (v : Json) (items : List Draft) (stack : List Open) (ts : List Token) :
    read .valueOrEnd (.array items :: stack) (v.tokens ++ ts) =
      read .value (.array items :: stack) (v.tokens ++ ts) := by
  have hfirst : ∀ {t expect stack'} (ts : List Token),
      step .value (.array items :: stack) t = some (expect, stack') →
      read .valueOrEnd (.array items :: stack) (t :: ts) =
        read .value (.array items :: stack) (t :: ts) := by
    intro t expect stack' ts h
    have h' : step .valueOrEnd (.array items :: stack) t = some (expect, stack') := by
      cases t <;> first | exact h | cases h
    rw [read_of_step _ _ h, read_of_step _ _ h']
  match v with
  | .null | .bool _ | .number _ | .string _ | .array [] | .array (_ :: _) | .object []
  | .object (_ :: _) => exact hfirst _ rfl

mutual

theorem read_tokens : ∀ (v : Json) (stack : List Open) (ts : List Token),
    read .value stack (v.tokens ++ ts) = read (.next v.draft) stack ts
  | .null, stack, ts => read_of_step _ _ rfl
  | .bool b, stack, ts => read_of_step _ _ rfl
  | .number n, stack, ts => read_of_step _ _ rfl
  | .string s, stack, ts => read_of_step _ _ rfl
  | .array [], stack, ts =>
    (read_of_step .valueOrEnd (.array [] :: stack) rfl).trans (read_of_step _ _ rfl)
  | .array (v :: vs), stack, ts => by
    rw [tokens, List.cons_append, List.append_assoc,
      read_of_step .valueOrEnd (.array [] :: stack) rfl, read_valueOrEnd,
      read_tokens v, read_itemTokens vs]
    rfl
  | .object [], stack, ts =>
    (read_of_step .keyOrEnd stack rfl).trans (read_of_step _ _ rfl)
  | .object ((k, v) :: ms), stack, ts => by
    rw [tokens, List.cons_append, List.cons_append, List.cons_append, List.append_assoc,
      read_of_step .keyOrEnd stack rfl,
      read_of_step .colon (.object [] (some k) :: stack) rfl,
      read_of_step .value _ rfl, read_tokens v, read_memberTokens ms]
    rfl

theorem read_itemTokens : ∀ (vs : List Json) (d : Draft) (items : List Draft) (stack : List Open)
    (ts : List Token),
    read (.next d) (.array items :: stack) (itemTokens vs ++ ts) =
      read (.next (.array ((d :: items).reverse ++ itemDrafts vs) .closed)) stack ts
  | [], d, items, stack, ts => by
    rw [itemDrafts, List.append_nil]
    exact read_of_step _ _ rfl
  | v :: vs, d, items, stack, ts => by
    rw [itemTokens, List.cons_append, List.append_assoc,
      read_of_step .value (.array (d :: items) :: stack) rfl,
      read_tokens v, read_itemTokens vs]
    simp [itemDrafts]

theorem read_memberTokens : ∀ (ms : List (String × Json)) (d : Draft)
    (members : List (Option String × Draft)) (k : Option String) (stack : List Open)
    (ts : List Token),
    read (.next d) (.object members k :: stack) (memberTokens ms ++ ts) =
      read (.next (.object (((k, d) :: members).reverse ++ memberDrafts ms) .closed)) stack ts
  | [], d, members, k, stack, ts => by
    rw [memberDrafts, List.append_nil]
    exact read_of_step _ _ rfl
  | (k', v) :: ms, d, members, k, stack, ts => by
    rw [memberTokens, List.cons_append, List.cons_append, List.cons_append, List.append_assoc,
      read_of_step (.key ((k, d) :: members)) stack rfl,
      read_of_step .colon (.object ((k, d) :: members) (some k') :: stack) rfl,
      read_of_step .value _ rfl, read_tokens v, read_memberTokens ms]
    simp [memberDrafts]

end

/-- **The text of a value is read as that value.** -/
theorem ofChars_toChars {v : Json} (h : v.HasNoDouble) :
    Draft.ofChars v.toChars = (v.draft, true) := by
  have htokens := Json.ofChars_toChars v [] h trivial
  rw [List.append_nil, Token.ofChars] at htokens
  rw [Draft.ofChars, htokens, read_tokens, read]
  rfl

end Draft

end ClientSynth.Json

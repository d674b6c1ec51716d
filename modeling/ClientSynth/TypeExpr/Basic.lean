import ClientSynth.Text.Segments

/-!
# `ClientSynth.TypeExpr.Basic` — type expressions

Contracts write types as text: `Future<Vec<widgets::Widget>>`, `HashMap<String, i64>`, `()`. A
`TypeExpr` is the tree behind such a text: a name, qualified or not, applied to arguments. This
file holds the tree, its equality and order, and its printed form; reading is in
`ClientSynth.TypeExpr.Parser`.

Every recursion goes through a twin on argument lists (`toChars` with `argsToChars`), so that the
two can be reasoned about by one mutual induction.
-/

set_option autoImplicit false

namespace ClientSynth

/-- A type expression: a name applied to arguments. -/
inductive TypeExpr where
  | app (name : String) (args : List TypeExpr)
  deriving Inhabited

namespace TypeExpr

/-- The applied name, with its qualification. -/
def name : TypeExpr → String
  | app n _ => n

def args : TypeExpr → List TypeExpr
  | app _ as => as

/-- A type without arguments. -/
def named (n : String) : TypeExpr := app n []

def unitName : String := "()"

/-- The unit type `()`. -/
def unit : TypeExpr := named unitName

/-! ## Equality -/

mutual

/-- Decides equality of types by their names and, pairwise, their arguments. -/
def decEq : (a b : TypeExpr) → Decidable (a = b)
  | app n as, app m bs =>
    if hn : n = m then
      match decEqArgs as bs with
      | isTrue h => isTrue (by rw [hn, h])
      | isFalse h => isFalse (by intro heq; injection heq with _ h'; exact h h')
    else isFalse (by intro heq; injection heq with h' _; exact hn h')

def decEqArgs : (as bs : List TypeExpr) → Decidable (as = bs)
  | [], [] => isTrue rfl
  | [], _ :: _ => isFalse (by simp)
  | _ :: _, [] => isFalse (by simp)
  | a :: as, b :: bs =>
    match decEq a b, decEqArgs as bs with
    | isTrue h, isTrue h' => isTrue (by rw [h, h'])
    | isFalse h, _ => isFalse (by intro heq; injection heq with h' _; exact h h')
    | _, isFalse h => isFalse (by intro heq; injection heq with _ h'; exact h h')

end

instance : DecidableEq TypeExpr := decEq

/-! ## Parts -/

/-- Whether this is `()` itself. -/
def isUnit (t : TypeExpr) : Bool :=
  t.name == unitName && t.args.isEmpty

/-- The last segment of the name: `Widget` for `widgets::Widget`. -/
def baseName (t : TypeExpr) : String :=
  Text.shortName t.name

/-- The argument, if there is exactly one. -/
def singleArg? (t : TypeExpr) : Option TypeExpr :=
  match t.args with
  | [only] => some only
  | _ => none

/-! ## Printed form -/

mutual

/-- The written form: the name, then the arguments between angle brackets. -/
def toChars : TypeExpr → List Char
  | app n [] => n.toList
  | app n (a :: as) => n.toList ++ '<' :: (toChars a ++ (argsToChars as ++ ['>']))

/-- The written form of the arguments after the first, each after a comma and a space. -/
def argsToChars : List TypeExpr → List Char
  | [] => []
  | a :: as => ',' :: ' ' :: (toChars a ++ argsToChars as)

end

def display (t : TypeExpr) : String :=
  String.ofList t.toChars

instance : ToString TypeExpr := ⟨display⟩

/-! ## Order -/

mutual

/-- Types in order of their names, then of their arguments, the first difference deciding. -/
def order : TypeExpr → TypeExpr → Ordering
  | app n as, app m bs =>
    match compare n m with
    | .eq => orderArgs as bs
    | o => o

/-- Argument lists in lexicographic order: a list comes after each of its proper beginnings. -/
def orderArgs : List TypeExpr → List TypeExpr → Ordering
  | [], [] => .eq
  | [], _ :: _ => .lt
  | _ :: _, [] => .gt
  | a :: as, b :: bs =>
    match order a b with
    | .eq => orderArgs as bs
    | o => o

end

instance : Ord TypeExpr := ⟨order⟩

/-- The list without the elements that equal the one before them. -/
def dropRepeats : List TypeExpr → List TypeExpr
  | [] => []
  | [t] => [t]
  | t :: u :: ts => if t = u then dropRepeats (u :: ts) else t :: dropRepeats (u :: ts)

/-- The distinct types of a list in ascending order. -/
def sortedDistinct (ts : List TypeExpr) : List TypeExpr :=
  dropRepeats (ts.mergeSort fun a b => (order a b).isLE)

end TypeExpr

end ClientSynth

import ClientSynth.Decimal.Binary64

/-!
# `ClientSynth.Json.Basic` — JSON values

A JSON value as the library holds it: numbers are whole numbers in the range of 64-bit words or
doubles, and an object is a list of members. A value that was read lists its members in ascending
order of their keys, one for each key (`IsSorted`), so two texts that list the same members
differently give the same `Json`; a document that the library writes lists them in the order of its
fields.
-/

set_option autoImplicit false

namespace ClientSynth

/-- A whole number that fits a signed or an unsigned 64-bit word. -/
structure Whole where
  val : Int
  lower_le : -0x8000000000000000 ≤ val := by decide
  lt_upper : val < 0x10000000000000000 := by decide
  deriving DecidableEq

namespace Whole

/-- The whole number `n`, if it is in range. -/
def ofInt? (n : Int) : Option Whole :=
  if h : -0x8000000000000000 ≤ n ∧ n < 0x10000000000000000 then some ⟨n, h.1, h.2⟩ else none

instance : Inhabited Whole := ⟨⟨0, by decide, by decide⟩⟩

theorem ofInt?_val (w : Whole) : ofInt? w.val = some w := by
  have h : -0x8000000000000000 ≤ w.val ∧ w.val < 0x10000000000000000 := ⟨w.lower_le, w.lt_upper⟩
  rw [ofInt?, dif_pos h]

end Whole

/-- A JSON number: whole where the text is a whole number in range, a double otherwise. -/
inductive Number where
  | whole (n : Whole)
  | double (x : Binary64)
  deriving DecidableEq, Inhabited

/-- A JSON value. -/
inductive Json where
  | null
  | bool (b : Bool)
  | number (n : Number)
  | string (s : String)
  | array (items : List Json)
  | object (members : List (String × Json))
  deriving Inhabited

namespace Json

/-- The number for a natural number known to fit a word. -/
def ofUInt64 (n : UInt64) : Json :=
  .number (.whole ⟨n.toNat, by have := n.toNat_lt; omega, by have := n.toNat_lt; omega⟩)

/-- The members with one more, which takes the place of an earlier member of that key and else
stands where its key belongs. -/
def insertMember (key : String) (value : Json) : List (String × Json) → List (String × Json)
  | [] => [(key, value)]
  | (k, v) :: rest =>
    if key < k then (key, value) :: (k, v) :: rest
    else if key = k then (key, value) :: rest
    else (k, v) :: insertMember key value rest

/-- The object of some members, of which the last one counts where a key is repeated. -/
def ofMembers (members : List (String × Json)) : Json :=
  .object (members.foldl (fun acc m => insertMember m.1 m.2 acc) [])

/-- The value of a member of an object. -/
def member? (key : String) : Json → Option Json
  | .object members => members.lookup key
  | _ => none

mutual

/-- Whether every object in a value lists its members in ascending order of distinct keys. -/
def IsSorted : Json → Prop
  | .array items => AllSorted items
  | .object members => members.Pairwise (fun a b => a.1 < b.1) ∧ AllMembersSorted members
  | _ => True

def AllSorted : List Json → Prop
  | [] => True
  | v :: vs => IsSorted v ∧ AllSorted vs

def AllMembersSorted : List (String × Json) → Prop
  | [] => True
  | (_, v) :: ms => IsSorted v ∧ AllMembersSorted ms

end

/-! ## Kinds -/

/-- The kind of a JSON value, whole and other numbers told apart. -/
inductive Kind where
  | null | boolean | float | integer | string | array | object
  deriving DecidableEq, Repr

def Kind.name : Kind → String
  | .null => "null"
  | .boolean => "boolean"
  | .float => "float"
  | .integer => "integer"
  | .string => "string"
  | .array => "array"
  | .object => "object"

def kind : Json → Kind
  | .null => .null
  | .bool _ => .boolean
  | .number (.whole _) => .integer
  | .number (.double _) => .float
  | .string _ => .string
  | .array _ => .array
  | .object _ => .object

end Json

end ClientSynth

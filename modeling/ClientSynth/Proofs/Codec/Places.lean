import ClientSynth.Codec.Shape
import Mathlib.Data.List.Lex

/-!
# `ClientSynth.Proofs.Codec.Places` — where a value is not of its type

`check` walks a type and a value together and comes back at the first mismatch. Here nothing is walked.
A value has places under a type (`HasPlace`): the whole, and whatever wrappers lead to, each with the
steps that lead there, the type that counts there and the value that is there. A type demands something
of the value at its place, which is looked up in a table (`requirement`), and a place whose value is not
as demanded is a fault. Places are in order of their steps: the outer before the inner, elements by
their positions, entries by their keys.

> a value is of its type exactly when no place is a fault, and what `check` reports of any other value
> is the first fault (`check_finds_first`).
-/

set_option autoImplicit false

namespace ClientSynth

/-! ## What types demand -/

/-- Names that stand for something else than records, with the number of arguments that they are known
by and what they then demand. -/
structure KnownForm where
  names : List String
  arity : Nat
  demand : Demand

namespace KnownForm

def sequences : List String := ["Vec", "VecDeque", "HashSet", "BTreeSet"]

def dictionaries : List String := ["HashMap", "BTreeMap"]

def all : List KnownForm :=
  [⟨["Value"], 0, .anything⟩,
   ⟨["String", "str"], 0, .string⟩,
   ⟨["bool"], 0, .boolean⟩,
   ⟨["f32", "f64"], 0, .number⟩,
   ⟨["i8", "i16", "i32", "i64", "i128", "isize"], 0, .integer⟩,
   ⟨["u8", "u16", "u32", "u64", "u128", "usize"], 0, .natural⟩,
   ⟨["Option"], 1, .anything⟩,
   ⟨sequences, 1, .array⟩,
   ⟨dictionaries, 2, .object⟩]

/-- What a name demands with a number of arguments. -/
def demandOf (name : String) (arity : Nat) : Demand :=
  match all.find? fun form => form.names.contains name && form.arity == arity with
  | some form => form.demand
  | none => .object

end KnownForm

/-- What a type demands of the value at its place, whatever is inside it. -/
def TypeExpr.requirement (t : TypeExpr) : Demand :=
  if t = .unit then .null else KnownForm.demandOf t.baseName t.args.length

/-- Types that say what is in their values: the values of `t` have values of `u` in them. -/
inductive Wraps : Wrapper → TypeExpr → TypeExpr → Prop
  | optional {t u : TypeExpr} (hname : t.baseName = "Option") (hargs : t.args = [u]) :
      Wraps .optional t u
  | sequence {t u : TypeExpr} (hname : t.baseName ∈ KnownForm.sequences) (hargs : t.args = [u]) :
      Wraps .sequence t u
  | dictionary {t k u : TypeExpr} (hname : t.baseName ∈ KnownForm.dictionaries)
      (hargs : t.args = [k, u]) : Wraps .dictionary t u

/-- What is wrapped is smaller than the wrapper. -/
theorem Wraps.sizeOf_lt {w : Wrapper} {t u : TypeExpr} (h : Wraps w t u) : sizeOf u < sizeOf t := by
  obtain ⟨n, args⟩ := t
  have hmem : u ∈ args := by
    cases h with
    | optional _ hargs | sequence _ hargs =>
      obtain rfl : args = [u] := hargs
      exact List.mem_cons_self
    | @dictionary _ k _ _ hargs =>
      obtain rfl : args = [k, u] := hargs
      exact List.mem_cons_of_mem _ List.mem_cons_self
  have hlt := List.sizeOf_lt_of_mem hmem
  rw [TypeExpr.app.sizeOf_spec]
  omega

/-! ## Places -/

/-- A place in a value: the steps to it, the outermost first, the type that counts there and the value
that is there. -/
structure Place where
  steps : List ShapeStep
  type : TypeExpr
  value : Json

namespace Place

/-- A place in a part, seen from the whole. -/
def within (step : ShapeStep) (a : Place) : Place :=
  { a with steps := step :: a.steps }

/-- What is reported of a place. -/
def mismatch (a : Place) : Mismatch :=
  ⟨a.steps, a.type, a.value.kind⟩

end Place

/-- The places that a value has under a type. An optional value that is there is looked at under the
other type in the same place. -/
inductive HasPlace : TypeExpr → Json → Place → Prop
  | here (t : TypeExpr) (v : Json) : HasPlace t v ⟨[], t, v⟩
  | optional {t u : TypeExpr} {v : Json} {a : Place} (ht : Wraps .optional t u) (hv : v ≠ .null)
      (h : HasPlace u v a) : HasPlace t v a
  | element {t u : TypeExpr} {items : List Json} {i : Nat} {x : Json} {a : Place}
      (ht : Wraps .sequence t u) (hx : items[i]? = some x) (h : HasPlace u x a) :
      HasPlace t (.array items) (a.within (.element i t))
  | entry {t u : TypeExpr} {members : List (String × Json)} {key : String} {x : Json} {a : Place}
      (ht : Wraps .dictionary t u) (hx : (key, x) ∈ members) (h : HasPlace u x a) :
      HasPlace t (.object members) (a.within (.entry key t))

/-- A place where the value is not as its type demands. -/
structure IsFault (t : TypeExpr) (v : Json) (a : Place) : Prop where
  place : HasPlace t v a
  unmet : a.type.requirement.isMet a.value = false

/-- The order of the parts of a value: elements by position, entries by key. Keys are in the order of
their characters, which is that of their bytes in UTF-8. -/
inductive ShapeStep.Precedes : ShapeStep → ShapeStep → Prop
  | element {i j : Nat} {t u : TypeExpr} (h : i < j) : Precedes (.element i t) (.element j u)
  | entry {k l : String} {t u : TypeExpr} (h : k < l) : Precedes (.entry k t) (.entry l u)

/-- The order of places: the outer before the inner, and else by the first step where they part. -/
def Place.Precedes (a b : Place) : Prop :=
  List.Lex ShapeStep.Precedes a.steps b.steps

/-- The fault that comes before all others. -/
structure IsFirstFault (t : TypeExpr) (v : Json) (a : Place) : Prop extends IsFault t v a where
  first : ∀ b, IsFault t v b → b = a ∨ a.Precedes b

/-! ## The order -/

theorem ShapeStep.Precedes.asymm {s s' : ShapeStep} (h : s.Precedes s') : ¬ s'.Precedes s := by
  intro h'
  cases h with
  | element h =>
    cases h' with
    | element h' => exact Nat.lt_asymm h h'
  | entry h =>
    cases h' with
    | entry h' => exact String.lt_asymm h h'

instance : Std.Asymm ShapeStep.Precedes := ⟨fun _ _ h => h.asymm⟩

theorem Place.Precedes.asymm {a b : Place} (h : a.Precedes b) : ¬ b.Precedes a :=
  Std.Asymm.asymm (r := List.Lex ShapeStep.Precedes) _ _ h

theorem Place.Precedes.within {a b : Place} (h : a.Precedes b) (step : ShapeStep) :
    (a.within step).Precedes (b.within step) :=
  List.Lex.cons h

theorem Place.within_precedes {s s' : ShapeStep} (h : s.Precedes s') (a b : Place) :
    (a.within s).Precedes (b.within s') :=
  List.Lex.rel h

/-- There is but one first fault. -/
theorem IsFirstFault.unique {t : TypeExpr} {v : Json} {a b : Place} (ha : IsFirstFault t v a)
    (hb : IsFirstFault t v b) : a = b := by
  rcases ha.first b hb.toIsFault with heq | hab
  · exact heq.symm
  · rcases hb.first a ha.toIsFault with heq | hba
    · exact heq
    · exact absurd hba hab.asymm

/-! ## Types, by what they demand -/

/-- What a wrapper demands of the value at its own place. -/
def Wrapper.demand : Wrapper → Demand
  | optional => .anything
  | sequence => .array
  | dictionary => .object

namespace KnownForm

theorem demandOf_zero (name : String) : demandOf name 0 = TypeExpr.plainDemand name := by
  unfold TypeExpr.plainDemand
  split
  case h_19 => simp_all [demandOf, all]
  all_goals rfl

theorem demandOf_one (name : String) :
    demandOf name 1 = (Wrapper.ofOne? name).elim .object Wrapper.demand := by
  unfold Wrapper.ofOne?
  split
  case h_6 => simp_all [demandOf, all, sequences]
  all_goals rfl

theorem demandOf_two (name : String) :
    demandOf name 2 = (Wrapper.ofTwo? name).elim .object Wrapper.demand := by
  unfold Wrapper.ofTwo?
  split
  case h_3 => simp_all [demandOf, all, dictionaries]
  all_goals rfl

theorem demandOf_more (name : String) (n : Nat) : demandOf name (n + 3) = .object := by
  simp [demandOf, all]

end KnownForm

/-- The wrapper that a type is, with the type that it is around. -/
def TypeExpr.wrapper? : TypeExpr → Option (Wrapper × TypeExpr)
  | .app n [u] => (Wrapper.ofOne? (Text.shortName n)).map (·, u)
  | .app n [_, u] => (Wrapper.ofTwo? (Text.shortName n)).map (·, u)
  | _ => none

theorem Wrapper.ofOne?_eq_some_iff {name : String} {w : Wrapper} :
    ofOne? name = some w ↔
      (name = "Option" ∧ w = optional) ∨ (name ∈ KnownForm.sequences ∧ w = sequence) := by
  unfold ofOne?
  split <;> simp_all [KnownForm.sequences, eq_comm]

theorem Wrapper.ofTwo?_eq_some_iff {name : String} {w : Wrapper} :
    ofTwo? name = some w ↔ name ∈ KnownForm.dictionaries ∧ w = dictionary := by
  unfold ofTwo?
  split <;> simp_all [KnownForm.dictionaries, eq_comm]

namespace TypeExpr

theorem wrapper?_eq_some_iff {t u : TypeExpr} {w : Wrapper} :
    t.wrapper? = some (w, u) ↔ Wraps w t u := by
  constructor
  · intro h
    match t, h with
    | .app n [x], h =>
      obtain ⟨w', hw, heq⟩ := Option.map_eq_some_iff.mp h
      cases heq
      rcases Wrapper.ofOne?_eq_some_iff.mp hw with ⟨hname, rfl⟩ | ⟨hname, rfl⟩
      · exact .optional hname rfl
      · exact .sequence hname rfl
    | .app n [k, x], h =>
      obtain ⟨w', hw, heq⟩ := Option.map_eq_some_iff.mp h
      cases heq
      obtain ⟨hname, rfl⟩ := Wrapper.ofTwo?_eq_some_iff.mp hw
      exact .dictionary hname rfl
  · intro h
    obtain ⟨n, args⟩ := t
    cases h with
    | optional hname hargs =>
      obtain rfl : args = [u] := hargs
      exact Option.map_eq_some_iff.mpr ⟨_, Wrapper.ofOne?_eq_some_iff.mpr (.inl ⟨hname, rfl⟩), rfl⟩
    | sequence hname hargs =>
      obtain rfl : args = [u] := hargs
      exact Option.map_eq_some_iff.mpr ⟨_, Wrapper.ofOne?_eq_some_iff.mpr (.inr ⟨hname, rfl⟩), rfl⟩
    | @dictionary _ k _ hname hargs =>
      obtain rfl : args = [k, u] := hargs
      exact Option.map_eq_some_iff.mpr ⟨_, Wrapper.ofTwo?_eq_some_iff.mpr ⟨hname, rfl⟩, rfl⟩

theorem demand_of_args (n : String) (a : TypeExpr) (as : List TypeExpr) :
    (app n (a :: as)).demand = .object := by
  simp [demand, isUnit, args]

theorem requirement_of_args (n : String) (a : TypeExpr) (as : List TypeExpr) :
    (app n (a :: as)).requirement = KnownForm.demandOf (Text.shortName n) (as.length + 1) := by
  rw [requirement, if_neg (by simp [unit, named])]
  rfl

/-- What a type demands, by what it is: a wrapper or not. -/
theorem requirement_eq (t : TypeExpr) :
    t.requirement = (t.wrapper?.map (·.1.demand)).getD t.demand := by
  match t with
  | .app n [] =>
    simp [requirement, demand, wrapper?, isUnit, unit, named, KnownForm.demandOf_zero, args, name,
      baseName]
  | .app n [u] =>
    rw [requirement_of_args, demand_of_args, wrapper?]
    refine (KnownForm.demandOf_one _).trans ?_
    cases Wrapper.ofOne? (Text.shortName n) <;> rfl
  | .app n [k, u] =>
    rw [requirement_of_args, demand_of_args, wrapper?]
    refine (KnownForm.demandOf_two _).trans ?_
    cases Wrapper.ofTwo? (Text.shortName n) <;> rfl
  | .app n (a :: b :: c :: as) =>
    rw [requirement_of_args, demand_of_args]
    exact KnownForm.demandOf_more _ _

end TypeExpr

theorem Wraps.unique {w w' : Wrapper} {t u u' : TypeExpr} (h : Wraps w t u) (h' : Wraps w' t u') :
    w = w' ∧ u = u' := by
  rw [← TypeExpr.wrapper?_eq_some_iff] at h h'
  simpa [h] using h'

theorem Wraps.requirement_eq {w : Wrapper} {t u : TypeExpr} (h : Wraps w t u) :
    t.requirement = w.demand := by
  rw [TypeExpr.requirement_eq, TypeExpr.wrapper?_eq_some_iff.mpr h]
  rfl

/-! ## Faults -/

namespace IsFault

variable {t u : TypeExpr} {v : Json} {a : Place}

/-- A type that is no wrapper has one place. -/
theorem plain_iff (ht : t.wrapper? = none) :
    IsFault t v a ↔ a = ⟨[], t, v⟩ ∧ t.demand.isMet v = false := by
  have hnot : ∀ w u, ¬ Wraps w t u := fun w u h => by
    simp [TypeExpr.wrapper?_eq_some_iff.mpr h] at ht
  have hdemand : t.requirement = t.demand := by
    rw [TypeExpr.requirement_eq, ht]
    rfl
  constructor
  · rintro ⟨hplace, hunmet⟩
    cases hplace with
    | here => exact ⟨rfl, hdemand ▸ hunmet⟩
    | optional h | element h | entry h => exact absurd h (hnot _ _)
  · rintro ⟨rfl, hunmet⟩
    exact ⟨.here t v, hdemand ▸ hunmet⟩

/-- An optional value is at fault in what it is if it is there. -/
theorem optional_iff (ht : Wraps .optional t u) : IsFault t v a ↔ v ≠ .null ∧ IsFault u v a := by
  constructor
  · rintro ⟨hplace, hunmet⟩
    cases hplace with
    | here =>
      simp [ht.requirement_eq, Wrapper.demand, Demand.isMet] at hunmet
    | optional ht' hv h =>
      obtain ⟨-, rfl⟩ := ht.unique ht'
      exact ⟨hv, h, hunmet⟩
    | element ht' | entry ht' => exact absurd (ht.unique ht').1 (by decide)
  · rintro ⟨hv, h⟩
    exact ⟨.optional ht hv h.place, h.unmet⟩

end IsFault

end ClientSynth

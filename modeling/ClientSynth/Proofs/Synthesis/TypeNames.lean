import ClientSynth.Synthesis.TypeName

/-!
# `ClientSynth.Proofs.Synthesis.TypeNames` — which interfaces come to one type name

A type name is made of the last segment of an identity, by taking the mark of an interface off or by
putting the suffix on. Neither of the two by itself makes one name of two segments, but the two can
meet: `Foo` without a mark and `IFooImplementation` with one both come to `FooImplementation`.

> `theorem ofSegment_eq_iff (h : a ≠ b) : ofSegment a = ofSegment b ↔ Meets a b ∨ Meets b a`
-/

set_option autoImplicit false

namespace ClientSynth.TypeName

def IsCapital (c : Char) : Prop :=
  'A' ≤ c ∧ c ≤ 'Z'

/-- Whether a segment has the mark of an interface. -/
def IsMarked (segment : List Char) : Prop :=
  ∃ c rest, segment = 'I' :: c :: rest ∧ IsCapital c

/-- Whether what comes of a segment without a mark is what comes of another one with it. -/
structure Meets (plain marked : List Char) : Prop where
  unmarked : ¬ IsMarked plain
  /-- The first letter of the plain segment is the one after the mark, so it has to be a capital. -/
  capital : ∀ c ∈ plain.head?, IsCapital c
  eq : marked = 'I' :: (plain ++ suffix.toList)

/-- Whether two identities come to one type name, by their last segments. -/
def Clash (x y : String) : Prop :=
  let a := Text.lastSegment x.toList
  let b := Text.lastSegment y.toList
  a = b ∨ Meets a b ∨ Meets b a

/-! ## Segments -/

variable {a b segment : List Char}

theorem isUpper_iff (c : Char) : c.isUpper = true ↔ IsCapital c :=
  decide_eq_true_iff

theorem IsMarked.eq_cons (h : IsMarked segment) : segment = 'I' :: ofSegment segment := by
  obtain ⟨c, rest, rfl, hc⟩ := h
  rw [ofSegment, if_pos ((isUpper_iff c).mpr hc)]

theorem ofSegment_of_not_isMarked (h : ¬ IsMarked segment) :
    ofSegment segment = segment ++ suffix.toList := by
  unfold ofSegment
  split
  · rename_i c rest
    rw [if_neg]
    intro hc
    exact h ⟨c, rest, rfl, (isUpper_iff c).mp hc⟩
  · rfl

/-- The suffix begins with a capital, so a mark may stand before it alone. -/
theorem isMarked_cons_append_suffix_iff (plain : List Char) :
    IsMarked ('I' :: (plain ++ suffix.toList)) ↔ ∀ c ∈ plain.head?, IsCapital c := by
  unfold IsMarked
  cases plain with
  | nil =>
    have hsuffix : suffix.toList = 'I' :: "mplementation".toList := rfl
    have hcapital : IsCapital 'I' := by
      constructor <;> decide
    simp [hsuffix, hcapital]
  | cons c rest => simp

theorem meets_iff :
    Meets a b ↔ ¬ IsMarked a ∧ IsMarked b ∧ b = 'I' :: (a ++ suffix.toList) := by
  constructor
  · rintro ⟨ha, hcapital, rfl⟩
    exact ⟨ha, (isMarked_cons_append_suffix_iff a).mpr hcapital, rfl⟩
  · rintro ⟨ha, hb, rfl⟩
    exact ⟨ha, (isMarked_cons_append_suffix_iff a).mp hb, rfl⟩

/-- A segment with a mark comes to the same as one without it exactly where it is that one with the
mark before it and the suffix behind. -/
theorem ofSegment_eq_iff_meets (ha : ¬ IsMarked a) (hb : IsMarked b) :
    ofSegment a = ofSegment b ↔ Meets a b := by
  rw [meets_iff, ofSegment_of_not_isMarked ha]
  constructor
  · intro h
    refine ⟨ha, hb, ?_⟩
    rw [h]
    exact hb.eq_cons
  · rintro ⟨-, -, h⟩
    have hcons := hb.eq_cons
    rw [h] at hcons ⊢
    exact List.tail_eq_of_cons_eq hcons

theorem Meets.isMarked (h : Meets a b) : IsMarked b :=
  (meets_iff.mp h).2.1

/-- **Which segments come to one type name.** -/
theorem ofSegment_eq_iff (h : a ≠ b) :
    ofSegment a = ofSegment b ↔ Meets a b ∨ Meets b a := by
  by_cases ha : IsMarked a <;> by_cases hb : IsMarked b
  · -- Both lose the mark, and neither is plain.
    have hab : ¬ Meets a b := fun m => m.unmarked ha
    have hba : ¬ Meets b a := fun m => m.unmarked hb
    have hne : ofSegment a ≠ ofSegment b := by
      intro e
      apply h
      rw [ha.eq_cons, hb.eq_cons, e]
    simp [hne, hab, hba]
  · have hab : ¬ Meets a b := fun m => m.unmarked ha
    rw [eq_comm, ofSegment_eq_iff_meets hb ha]
    simp [hab]
  · have hba : ¬ Meets b a := fun m => m.unmarked hb
    rw [ofSegment_eq_iff_meets ha hb]
    simp [hba]
  · -- Both get the suffix, and neither has a mark.
    have hab : ¬ Meets a b := fun m => hb m.isMarked
    have hba : ¬ Meets b a := fun m => ha m.isMarked
    have hne : ofSegment a ≠ ofSegment b := by
      rw [ofSegment_of_not_isMarked ha, ofSegment_of_not_isMarked hb]
      exact fun e => h (List.append_cancel_right e)
    simp [hne, hab, hba]

theorem ofSegment_ne_self (segment : List Char) : ofSegment segment ≠ segment := by
  intro h
  by_cases hm : IsMarked segment
  · have hcons := hm.eq_cons
    rw [h] at hcons
    exact List.cons_ne_self _ _ hcons.symm
  · rw [ofSegment_of_not_isMarked hm] at h
    exact absurd (List.append_right_eq_self.mp h) (by decide)

/-! ## Identities -/

theorem ofInterface_eq_iff_ofSegment (x y : String) :
    ofInterface x = ofInterface y ↔
      ofSegment (Text.lastSegment x.toList) = ofSegment (Text.lastSegment y.toList) := by
  rw [ofInterface, ofInterface, String.ofList_inj]

/-- **Which identities come to one type name.** -/
theorem ofInterface_eq_iff (x y : String) : ofInterface x = ofInterface y ↔ Clash x y := by
  rw [ofInterface_eq_iff_ofSegment]
  unfold Clash
  by_cases h : Text.lastSegment x.toList = Text.lastSegment y.toList
  · simp [h]
  · simp [h, ofSegment_eq_iff h]

theorem ofInterface_ne_shortName (x : String) : ofInterface x ≠ Text.shortName x := by
  rw [ofInterface, Text.shortName, ne_eq, String.ofList_inj]
  exact ofSegment_ne_self _

end ClientSynth.TypeName

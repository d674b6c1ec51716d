import ClientSynth.Proofs.Chain.Builder
import ClientSynth.Proofs.Lists

/-!
# `ClientSynth.Proofs.Chain.Naming` — what outputs are named

A push names the output of its frame after everything that is in scope, so whatever names the
parameters have, a chain that is built comes to

> names of outputs that differ from one another and from those of all parameters.

That is one invariant of the builder (`Named`): it holds of a builder that has not built anything, and
each push keeps it. Names that are made of plain ones have no blank and no colon in them either
(`WellNamed`), which is where a name ends in the source of a frame.
-/

set_option autoImplicit false

namespace ClientSynth

/-- The names of the outputs of a chain, in order. -/
def Chain.outputNames (c : Chain) : List String :=
  c.frames.filterMap fun f => f.output.map (·.name)

/-! ## Plain names -/

/-- A name without the two characters that a name ends at in a statement. -/
def IsPlain (name : String) : Prop :=
  ' ' ∉ name.toList ∧ ':' ∉ name.toList

instance (name : String) : Decidable (IsPlain name) := inferInstanceAs (Decidable (_ ∧ _))

theorem FrameKind.isPlain_baseName (k : FrameKind) : IsPlain k.baseName := by
  cases k <;> decide

/-- A number adds nothing but digits to a name. -/
theorem isDigit_of_mem_append_toString {base : String} {k : Nat} {c : Char}
    (h : c ∈ (base ++ toString k).toList) : c ∈ base.toList ∨ c.isDigit = true := by
  have htext : (base ++ toString k).toList = base.toList ++ Nat.toDigits 10 k := by
    simp [Nat.repr]
  rw [htext, List.mem_append] at h
  exact h.imp_right fun hc => Nat.isDigit_of_mem_toDigits (by decide) (by decide) hc

theorem IsPlain.append_toString {base : String} (h : IsPlain base) (k : Nat) :
    IsPlain (base ++ toString k) := by
  constructor
  · exact fun hc => (isDigit_of_mem_append_toString hc).elim h.1 (by decide)
  · exact fun hc => (isDigit_of_mem_append_toString hc).elim h.2 (by decide)

/-- A fresh name is the one to start from, as it is or with a number. -/
theorem Scope.freshName_eq (base : String) (used : List String) :
    freshName base used = base ∨ ∃ k : Nat, freshName base used = base ++ toString k := by
  unfold freshName
  split
  · obtain ⟨k, -, hk⟩ := numberedName_eq base used 1
    exact Or.inr ⟨k, hk⟩
  · exact Or.inl rfl

theorem Scope.isPlain_freshName {base : String} (h : IsPlain base) (used : List String) :
    IsPlain (freshName base used) := by
  rcases freshName_eq base used with hname | ⟨k, hname⟩
  · rwa [hname]
  · rw [hname]
    exact h.append_toString k

theorem Scope.names_ofArguments (vs : List Variable) : (ofArguments vs).names = vs.map (·.name) := by
  suffices h : ∀ start, (argumentEntries start vs).map (·.var.name) = vs.map (·.name) from h 0
  induction vs with
  | nil => exact fun _ => rfl
  | cons v vs ih => exact fun start => congrArg (v.name :: ·) (ih (start + 1))

/-! ## The invariant of a builder -/

namespace ChainBuilder

/-- The names in scope are those of the parameters and of the outputs, and every output has a name of
its own. -/
structure Named (b : ChainBuilder) : Prop where
  scope : b.scope.names = b.arguments.map (·.name) ++ b.chain.outputNames
  fresh : ∀ name ∈ b.chain.outputNames, name ∉ b.arguments.map (·.name)
  nodup : b.chain.outputNames.Nodup

/-- The outputs have names of their own, and plain ones. -/
structure WellNamed (b : ChainBuilder) : Prop extends b.Named where
  plain : ∀ name ∈ b.chain.outputNames, IsPlain name

theorem named_start (interface method : String) (arguments : List Variable) :
    (start interface method arguments).Named where
  scope := by simp [start, Scope.names_ofArguments, chain, Chain.outputNames]
  fresh := by simp [start, chain, Chain.outputNames]
  nodup := List.nodup_nil

variable {b : ChainBuilder}

section Push

variable (op : Op) (inputs : List Ref)

theorem outputNames_push_none :
    (b.push op inputs none).chain.outputNames = b.chain.outputNames := by
  simp [push, chain, Chain.outputNames]

theorem outputNames_push_some (o : String × TypeExpr) :
    (b.push op inputs (some o)).chain.outputNames =
      b.chain.outputNames ++ [Scope.freshName o.1 b.scope.names] := by
  simp [push, chain, Chain.outputNames, Scope.declare]

/-- A frame without an output leaves the names as they are, and one with an output adds a name that is
none of those in scope. -/
theorem Named.push (h : b.Named) (output : Option (String × TypeExpr)) :
    (b.push op inputs output).Named := by
  cases output with
  | none =>
    refine ⟨?_, ?_, ?_⟩ <;> rw [outputNames_push_none]
    · exact h.scope
    · exact h.fresh
    · exact h.nodup
  | some o =>
    have hnames := outputNames_push_some (b := b) op inputs o
    have hscope : (b.push op inputs (some o)).scope.names =
        b.scope.names ++ [Scope.freshName o.1 b.scope.names] :=
      Scope.names_declare b.scope o.1 o.2 b.nextIndex
    have hnew := Scope.freshName_notMem o.1 b.scope.names
    generalize Scope.freshName o.1 b.scope.names = name at hnames hscope hnew
    -- The name is new in the whole scope, so it is none of the parameters and none of the outputs.
    rw [h.scope, List.mem_append, not_or] at hnew
    obtain ⟨hparam, houtput⟩ := hnew
    constructor
    case scope => rw [hscope, hnames, h.scope, arguments_push, List.append_assoc]
    case fresh =>
      rw [hnames, arguments_push, List.forall_mem_append, List.forall_mem_singleton]
      exact ⟨h.fresh, hparam⟩
    case nodup => exact hnames ▸ nodup_snoc h.nodup houtput

/-- Names that are plain to start from stay plain. -/
theorem WellNamed.push (h : b.WellNamed) {output : Option (String × TypeExpr)}
    (houtput : ∀ o, output = some o → IsPlain o.1) : (b.push op inputs output).WellNamed := by
  refine ⟨h.toNamed.push op inputs output, ?_⟩
  cases output with
  | none =>
    rw [outputNames_push_none]
    exact h.plain
  | some o =>
    rw [outputNames_push_some, List.forall_mem_append, List.forall_mem_singleton]
    exact ⟨h.plain, Scope.isPlain_freshName (houtput o rfl) b.scope.names⟩

end Push

theorem WellNamed.lay (h : b.WellNamed) (shape : Op × List Ref × Option TypeExpr) :
    (b.lay shape).WellNamed := by
  refine h.push shape.1 shape.2.1 fun o ho => ?_
  obtain ⟨type, -, rfl⟩ := Option.map_eq_some_iff.mp ho
  exact shape.1.kind.isPlain_baseName

/-- **Whatever is laid, every output has a name of its own.** -/
theorem wellNamed_foldl_lay (interface method : String) (arguments : List Variable)
    (shapes : List (Op × List Ref × Option TypeExpr)) :
    (shapes.foldl lay (start interface method arguments)).WellNamed :=
  foldl_lay_of_lay (fun _ shape h => h.lay shape)
    ⟨named_start interface method arguments, by simp [start, chain, Chain.outputNames]⟩

end ChainBuilder

/-! ## Outputs by what their frames do -/

/-- The output of a frame, if it has one, is named after what the frame does, and may have a number. -/
def Frame.NamedByKind (f : Frame) : Prop :=
  ∀ v, f.output = some v →
    v.name = f.kind.baseName ∨ ∃ k : Nat, v.name = f.kind.baseName ++ toString k

theorem FrameKind.isAlphanum_baseName (k : FrameKind) :
    k.baseName.toList.all Char.isAlphanum = true := by
  cases k <;> decide

/-- Names of outputs have nothing but letters and digits in them. -/
theorem Frame.NamedByKind.isAlphanum {f : Frame} (h : f.NamedByKind) {v : Variable}
    (hv : f.output = some v) : ∀ c ∈ v.name.toList, c.isAlphanum = true := by
  have hbase := List.all_eq_true.mp f.kind.isAlphanum_baseName
  intro c hc
  rcases h v hv with hname | ⟨k, hname⟩
  · exact hbase c (hname ▸ hc)
  · rcases isDigit_of_mem_append_toString (hname ▸ hc) with hc | hdigit
    · exact hbase c hc
    · rw [Char.isAlphanum, hdigit, Bool.or_true]

theorem ChainBuilder.namedByKind_foldl_lay (interface method : String) (arguments : List Variable)
    (shapes : List (Op × List Ref × Option TypeExpr)) :
    ∀ f ∈ (shapes.foldl lay (start interface method arguments)).frames, f.NamedByKind := by
  refine foldl_lay_of_lay (P := fun b => ∀ f ∈ b.frames, f.NamedByKind) (fun b shape h => ?_)
    (by simp [start])
  obtain ⟨op, inputs, output⟩ := shape
  cases output with
  | none =>
    rw [lay, Option.map_none, push, List.forall_mem_append, List.forall_mem_singleton]
    exact ⟨h, by rintro _ ⟨⟩⟩
  | some type =>
    rw [lay, Option.map_some, push, List.forall_mem_append, List.forall_mem_singleton]
    refine ⟨h, ?_⟩
    rintro _ ⟨⟩
    exact Scope.freshName_eq op.kind.baseName b.scope.names

end ClientSynth

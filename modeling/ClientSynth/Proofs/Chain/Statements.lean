import ClientSynth.Proofs.Chain.Naming

/-!
# `ClientSynth.Proofs.Chain.Statements` — a chain as the source that it renders

The lines that a chain renders can be read without the chain: a line that starts with `let` binds the
name that follows, and a name that is used stands for its latest binding, or for a parameter if it has
none. Read this way, a line binds what its frame leaves (`boundName?_render`), and as long as no name is
bound twice, a name stands for the one thing that was bound to it (`origin?_eq_some`). That a line has
certain names in it, one behind another, is `Source.Mentions`.
-/

set_option autoImplicit false

namespace ClientSynth

/-! ## Reading source -/

/-- Where the value of a name in a method body comes from. -/
inductive Origin where
  | parameter (position : Nat)
  /-- The line that binds the name. -/
  | line (index : Nat)
  deriving DecidableEq, Repr

namespace Source

/-- The name that a line binds, if it is a `let`: all up to a blank or a colon. -/
def boundName? (line : String) : Option String :=
  match line.toList with
  | 'l' :: 'e' :: 't' :: ' ' :: rest =>
    some (String.ofList (rest.takeWhile fun c => c != ' ' && c != ':'))
  | _ => none

/-- The names that lines bind, in order, each with its line. -/
def lets (lines : List String) : List (String × Origin) :=
  lines.zipIdx.filterMap fun (line, i) => (boundName? line).map (·, .line i)

/-- The names that can be used after some lines of a method, in the order in which they came up. -/
def namesAfter (params lines : List String) : List (String × Origin) :=
  params.zipIdx.map (fun (name, i) => (name, .parameter i)) ++ lets lines

/-- What a name stands for after some lines of a method: what came up last under it. -/
def origin? (params lines : List String) (name : String) : Option Origin :=
  ((namesAfter params lines).reverse.find? (·.1 == name)).map (·.2)

theorem map_fst_lets (lines : List String) : (lets lines).map (·.1) = lines.filterMap boundName? := by
  have hfst : ∀ p : String × Nat,
      ((boundName? p.1).map (·, Origin.line p.2)).map (·.1) = boundName? p.1 := by
    intro p
    cases boundName? p.1 <;> rfl
  rw [lets, List.map_filterMap]
  simp only [hfst]
  calc lines.zipIdx.filterMap (fun p => boundName? p.1)
      = (lines.zipIdx.map (·.1)).filterMap boundName? := by rw [List.filterMap_map]; rfl
    _ = lines.filterMap boundName? := by rw [List.zipIdx_map_fst]

theorem map_fst_namesAfter (params lines : List String) :
    (namesAfter params lines).map (·.1) = params ++ lines.filterMap boundName? := by
  rw [namesAfter, List.map_append, List.map_map, map_fst_lets]
  exact congrArg (· ++ _) (List.zipIdx_map_fst 0 params)

section Lookup

variable {params lines : List String} {name : String}

/-- If no name came up twice, a name stands for the only thing that came up under it. -/
theorem origin?_eq_some (hnodup : (params ++ lines.filterMap boundName?).Nodup) {o : Origin}
    (h : (name, o) ∈ namesAfter params lines) : origin? params lines name = some o := by
  rw [← map_fst_namesAfter] at hnodup
  have hreverse : ((namesAfter params lines).reverse.map (·.1)).Nodup := by
    rw [List.map_reverse]
    exact List.nodup_reverse.mpr hnodup
  rw [origin?, find?_key hreverse (List.mem_reverse.mpr h)]
  rfl

theorem parameter_mem_namesAfter {i : Nat} (h : params[i]? = some name) :
    (name, .parameter i) ∈ namesAfter params lines :=
  List.mem_append_left _ <| List.mem_map.mpr
    ⟨(name, i), List.mk_mem_zipIdx_iff_getElem?.mpr h, rfl⟩

theorem line_mem_namesAfter {i : Nat} {line : String} (h : lines[i]? = some line)
    (hline : boundName? line = some name) : (name, .line i) ∈ namesAfter params lines :=
  List.mem_append_right _ <| List.mem_filterMap.mpr
    ⟨(line, i), List.mk_mem_zipIdx_iff_getElem?.mpr h, by simp [hline]⟩

end Lookup

/-- A `let` binds a plain name that a blank or a colon comes after. -/
theorem boundName?_let {name next : String} (hname : IsPlain name)
    (hnext : next.toList.head? = some ' ' ∨ next.toList.head? = some ':') (rest : String) :
    boundName? ("let " ++ (name ++ (next ++ rest))) = some name := by
  have hline : ("let " ++ (name ++ (next ++ rest))).toList =
      'l' :: 'e' :: 't' :: ' ' :: (name.toList ++ (next.toList ++ rest.toList)) := by
    rw [String.toList_append, String.toList_append, String.toList_append]
    rfl
  have hkeep : ∀ c ∈ name.toList, (c != ' ' && c != ':') = true := by
    intro c hc
    have hblank : c ≠ ' ' := fun h => hname.1 (h ▸ hc)
    have hcolon : c ≠ ':' := fun h => hname.2 (h ▸ hc)
    simp [hblank, hcolon]
  -- The name is read up to `next`, which begins with one of the two characters that end it.
  have hstop : (next.toList ++ rest.toList).takeWhile (fun c => c != ' ' && c != ':') = [] := by
    cases hc : next.toList with
    | nil => simp [hc] at hnext
    | cons c cs =>
      rw [hc] at hnext
      rcases hnext with h | h <;> obtain rfl : c = _ := by simpa using h
      · rfl
      · rfl
  unfold boundName?
  rw [hline]
  show some (String.ofList ((name.toList ++ _).takeWhile _)) = some name
  rw [List.takeWhile_append_of_pos hkeep, hstop, List.append_nil, String.ofList_toList]

theorem boundName?_ok (rest : String) : boundName? ("Ok(" ++ rest) = none := by
  have hline : ("Ok(" ++ rest).toList = 'O' :: 'k' :: '(' :: rest.toList := by
    rw [String.toList_append]
    rfl
  simp [boundName?, hline]

/-! ## What a line has in it -/

/-- A text has words in it, one behind another. -/
def Mentions : List String → String → Prop
  | [], _ => True
  | word :: words, text => ∃ before rest, text = before ++ word ++ rest ∧ Mentions words rest

section Mentions

variable {words words' : List String} {text text' : String}

theorem Mentions.prepend (before : String) (h : Mentions words text) :
    Mentions words (before ++ text) := by
  cases words with
  | nil => trivial
  | cons word words =>
    obtain ⟨before', rest, rfl, hrest⟩ := h
    exact ⟨before ++ before', rest, by simp only [String.append_assoc], hrest⟩

theorem Mentions.append (h : Mentions words text) (h' : Mentions words' text') :
    Mentions (words ++ words') (text ++ text') := by
  induction words generalizing text with
  | nil => exact h'.prepend text
  | cons word words ih =>
    obtain ⟨before, rest, rfl, hrest⟩ := h
    exact ⟨before, rest ++ text', by simp only [String.append_assoc], ih hrest⟩

theorem Mentions.extend (h : Mentions words text) (rest : String) :
    Mentions words (text ++ rest) := by
  rw [← List.append_nil words]
  exact h.append trivial

theorem mentions_singleton (before word rest : String) :
    Mentions [word] (before ++ word ++ rest) :=
  ⟨before, rest, rfl, trivial⟩

theorem Mentions.snoc (h : Mentions words text) (word rest : String) :
    Mentions (words ++ [word]) (text ++ word ++ rest) := by
  have hlast := mentions_singleton "" word rest
  rw [String.empty_append] at hlast
  rw [String.append_assoc]
  exact h.append hlast

theorem mentions_intercalate (separator : String) {α : Type} {word text : α → String}
    (h : ∀ a, Mentions [word a] (text a)) :
    ∀ as : List α, Mentions (as.map word) (separator.intercalate (as.map text))
  | [] => trivial
  | [a] => by
    rw [List.map_singleton, List.map_singleton, String.intercalate_singleton]
    exact h a
  | a :: b :: as => by
    have ih := mentions_intercalate separator h (b :: as)
    rw [List.map_cons, List.map_cons (f := text), List.map_cons (f := text),
      String.intercalate_cons_cons, String.append_assoc]
    exact (h a).append (ih.prepend separator)

end Mentions

end Source

/-! ## Frames as lines -/

/-- Frames that leave something are those that do not return. -/
def Frame.Leaves (f : Frame) : Prop := f.output = none ↔ f.kind = .returnValue

/-- A line binds the output of its frame. -/
theorem Frame.boundName?_render {f : Frame} (hleaves : f.Leaves)
    (hplain : ∀ v, f.output = some v → IsPlain v.name) (nameOf : Ref → String) :
    Source.boundName? (f.render nameOf) = f.output.map (·.name) := by
  obtain ⟨op, inputs, output⟩ := f
  cases output with
  | none =>
    have hkind : op.kind = .returnValue := hleaves.mp rfl
    cases op with
    | returnValue =>
      cases inputs with
      | nil => exact Source.boundName?_ok "())"
      | cons r _ =>
        show Source.boundName? ("Ok(" ++ nameOf r ++ ")") = none
        rw [String.append_assoc, Source.boundName?_ok]
    | _ => exact absurd hkind (by simp [Op.kind])
  | some v =>
    have hkind : op.kind ≠ .returnValue := fun h => absurd (hleaves.mpr h) (by simp)
    replace hplain : IsPlain v.name := hplain v rfl
    cases op with
    | returnValue => exact absurd rfl hkind
    | deserializeResponse type =>
      simp only [render, outputName, String.append_assoc]
      exact Source.boundName?_let hplain (Or.inr (by decide)) _
    | _ =>
      simp only [render, outputName, String.append_assoc]
      exact Source.boundName?_let hplain (Or.inl (by decide)) _

end ClientSynth

import ClientSynth.Proofs.Json.Reading

/-!
# `ClientSynth.Proofs.Json.Values` — the value of what was printed

A text is read into a draft first, and the draft is made into a value. Two things can go wrong on the
way for a draft that breaks off nowhere: its objects are put in order, which changes nothing where the
members are in order already, and it may be nested too deep.

> `ofString?_render`: of a value without doubles the text is read as that value, if the value is not
> nested deeper than a reader goes, and as nothing otherwise.
-/

set_option autoImplicit false

namespace ClientSynth.Json

/-! ## Members in order -/

/-- A member whose key comes after all others is put at the end. -/
theorem insertMember_append {key : String} {v : Json} :
    ∀ {ms : List (String × Json)}, (∀ m ∈ ms, m.1 < key) →
      insertMember key v ms = ms ++ [(key, v)]
  | [], _ => rfl
  | (k, w) :: ms, h => by
    have hk : k < key := h (k, w) List.mem_cons_self
    have hne : key ≠ k := by
      rintro rfl
      exact String.lt_irrefl _ hk
    have ih := insertMember_append (v := v) fun m hm => h m (List.mem_cons_of_mem _ hm)
    rw [insertMember, if_neg (String.lt_asymm hk), if_neg hne, ih]
    rfl

theorem ofMembers_of_ascending {ms : List (String × Json)}
    (h : ms.Pairwise fun a b => a.1 < b.1) : ofMembers ms = .object ms := by
  have hfold : ∀ (ms acc : List (String × Json)), (acc ++ ms).Pairwise (fun a b => a.1 < b.1) →
      ms.foldl (fun acc m => insertMember m.1 m.2 acc) acc = acc ++ ms := by
    intro ms
    induction ms with
    | nil => exact fun acc _ => (List.append_nil acc).symm
    | cons m ms ih =>
      intro acc h
      -- The members before `m` are those in `acc`, so `m` comes after them.
      have hbefore : ∀ a ∈ acc, a.1 < m.1 :=
        fun a ha => (List.pairwise_append.mp h).2.2 a ha m List.mem_cons_self
      rw [List.append_cons] at h
      rw [List.foldl_cons, insertMember_append hbefore, ih _ h, ← List.append_cons]
  rw [ofMembers, hfold ms [] h]
  rfl

/-! ## Depth -/

mutual

/-- How deep arrays and objects are nested in a value. -/
def depth : Json → Nat
  | .array items => itemsDepth items + 1
  | .object members => membersDepth members + 1
  | _ => 0

def itemsDepth : List Json → Nat
  | [] => 0
  | v :: vs => max (depth v) (itemsDepth vs)

def membersDepth : List (String × Json) → Nat
  | [] => 0
  | (_, v) :: ms => max (depth v) (membersDepth ms)

end

/-! ## Drafts -/

namespace Draft

mutual

theorem depth_draft : ∀ v : Json, v.draft.depth = v.depth
  | .null | .bool _ | .number _ | .string _ => rfl
  | .array items => by rw [draft, depth, Json.depth, depthItems_itemDrafts items]
  | .object members => by rw [draft, depth, Json.depth, depthMembers_memberDrafts members]

theorem depthItems_itemDrafts : ∀ vs : List Json, depthItems (itemDrafts vs) = itemsDepth vs
  | [] => rfl
  | v :: vs => by
    rw [itemDrafts, depthItems, itemsDepth, depth_draft v, depthItems_itemDrafts vs]

theorem depthMembers_memberDrafts :
    ∀ ms : List (String × Json), depthMembers (memberDrafts ms) = membersDepth ms
  | [] => rfl
  | (_, v) :: ms => by
    rw [memberDrafts, depthMembers, membersDepth, depth_draft v, depthMembers_memberDrafts ms]

end

mutual

theorem toJson?_draft : ∀ v : Json, v.IsSorted → v.draft.toJson? = some v
  | .null, _ | .bool _, _ | .number _, _ | .string _, _ => rfl
  | .array items, h => by
    rw [draft, toJson?, toItems?_itemDrafts items h]
    rfl
  | .object members, h => by
    rw [draft, toJson?, toMembers?_memberDrafts members h.2, Option.map_some,
      ofMembers_of_ascending h.1]

theorem toItems?_itemDrafts :
    ∀ vs : List Json, AllSorted vs → toItems? (itemDrafts vs) = some vs
  | [], _ => rfl
  | v :: vs, h => by
    rw [itemDrafts, toItems?, toJson?_draft v h.1, toItems?_itemDrafts vs h.2]
    rfl

theorem toMembers?_memberDrafts :
    ∀ ms : List (String × Json), AllMembersSorted ms → toMembers? (memberDrafts ms) = some ms
  | [], _ => rfl
  | (_, v) :: ms, h => by
    rw [memberDrafts, toMembers?, toJson?_draft v h.1, toMembers?_memberDrafts ms h.2]
    rfl

end

end Draft

/-- **What was printed is read again**, as long as it is not nested too deep. -/
theorem ofString?_render {v : Json} (hsorted : v.IsSorted) (hnumbers : v.HasNoDouble) :
    ofString? v.render = if v.depth ≤ maxDepth then some v else none := by
  rw [ofString?, render, String.toList_ofList, ofChars?, Draft.ofChars_toChars hnumbers]
  dsimp only
  rw [Draft.depth_draft, Draft.toJson?_draft v hsorted]

end ClientSynth.Json

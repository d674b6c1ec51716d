import ClientSynth.Contract.Canonical
import ClientSynth.Contract.Load
import ClientSynth.Proofs.Digest.Sha256
import ClientSynth.Proofs.Json.Reading

/-!
# `ClientSynth.Proofs.Contract.RoundTrip` — the canonical text says everything

The canonical text of a contract leaves out optional fields that are absent and writes lists of any
length, so that it loses nothing has to be shown field by field: reading the members of a record in
the order in which they are written puts each into its field (`record_cons`), and a member that is
left out leaves its field as it was (`record_optional`).

> `canonical_faithful`: the canonical text of a valid contract is read back as that contract, so two
> contracts with one text are equal, and so are two with one fingerprint unless their texts are a
> collision of the digest.
-/

set_option autoImplicit false

namespace ClientSynth

namespace Document

open Json (Draft)

section Records

variable {ρ α : Type} {add : ρ → String → Draft → Except DocumentError ρ} {r : ρ}
  {key : String} {ms : List (String × Json)}

/-! ### Members -/

/-- The next member goes into its field. -/
theorem record_cons {v : Json} (r' : ρ) (h : add r key v.draft = .ok r') :
    record r add (Json.memberDrafts ((key, v) :: ms)) .closed =
      record r' add (Json.memberDrafts ms) .closed := by
  simp only [record, Json.memberDrafts, List.foldlM_cons, h]
  rfl

/-- A member that may be left out goes into its field, or leaves it as it was. -/
theorem record_optional {toJson : α → Json} {o : Option α} (r' : ρ) (hnone : o = none → r' = r)
    (hsome : ∀ a, o = some a → add r key (toJson a).draft = .ok r') :
    record r add (Json.memberDrafts (Json.optional key toJson o ++ ms)) .closed =
      record r' add (Json.memberDrafts ms) .closed := by
  cases o with
  | none => rw [hnone rfl]; rfl
  | some a => exact record_cons r' (hsome a rfl)

/-- The items of an array are read one by one. -/
theorem list_map {decode : Draft → Except DocumentError α} {toJson : α → Json}
    (h : ∀ a, decode (toJson a).draft = .ok a) (as : List α) :
    list decode (Json.array (as.map toJson)).draft = .ok as := by
  have hitems : (Json.itemDrafts (as.map toJson)).mapM decode = .ok as := by
    induction as with
    | nil => rfl
    | cons a as ih =>
      rw [List.map_cons, Json.itemDrafts, List.mapM_cons, h a, ih]
      rfl
  simp only [list, Json.draft, hitems]
  rfl

end Records

theorem param_toJson (p : Param) : param p.toJson.draft = .ok p := rfl

theorem verb_word (v : Verb) : verb (Json.string v.word).draft = .ok v := by
  simp [verb, Json.draft, verb.ofWord, Verb.ofWord?_word]

theorem route_toJson (r : Route) : route r.toJson.draft = .ok r := by
  obtain ⟨path, v⟩ := r
  have hverb : RouteFields.add ⟨some path, none⟩ "method" (Json.string v.word).draft =
      .ok ⟨some path, some v⟩ := by
    simp only [RouteFields.add, field, verb_word]
    rfl
  have hrecord : record {} RouteFields.add (Json.memberDrafts
      [("path", .string path), ("method", .string v.word)]) .closed = .ok ⟨some path, some v⟩ := by
    rw [record_cons ⟨some path, none⟩ rfl, record_cons _ hverb]
    rfl
  show (record {} RouteFields.add (Json.memberDrafts _) .closed >>= _) = _
  rw [hrecord]
  rfl

theorem optional_route (r : Route) : optional route r.toJson.draft = .ok (some r) := by
  show some <$> route r.toJson.draft = _
  rw [route_toJson]
  rfl

theorem method_toJson (m : Method) : method m.toJson.draft = .ok m := by
  obtain ⟨name, params, returns, route⟩ := m
  have hparams : MethodFields.add { name := some name } "params"
      (Json.array (params.map Param.toJson)).draft =
        .ok { name := some name, params := some params } := by
    simp only [MethodFields.add, field, list_map param_toJson]
    rfl
  have hroute : ∀ r : Route, MethodFields.add ⟨some name, some params, returns.map some, none⟩
      "route" r.toJson.draft =
        .ok ⟨some name, some params, returns.map some, some (some r)⟩ := by
    intro r
    simp only [MethodFields.add, field, optional_route]
    rfl
  have hrecord : record {} MethodFields.add (Json.memberDrafts
      (("name", .string name) :: ("params", .array (params.map Param.toJson)) ::
        (Json.optional "returns" Json.string returns ++
          (Json.optional "route" Route.toJson route ++ [])))) .closed =
      .ok ⟨some name, some params, returns.map some, route.map some⟩ := by
    rw [record_cons { name := some name } rfl, record_cons _ hparams,
      record_optional ⟨some name, some params, returns.map some, none⟩
        (by rintro rfl; rfl) (by rintro s rfl; rfl),
      record_optional ⟨some name, some params, returns.map some, route.map some⟩
        (by rintro rfl; rfl) (by rintro r rfl; exact hroute r)]
    rfl
  rw [List.append_nil] at hrecord
  show (record {} MethodFields.add (Json.memberDrafts _) .closed >>= _) = _
  rw [List.append_assoc, List.cons_append, List.cons_append, List.nil_append, hrecord]
  cases returns <;> cases route <;> rfl

theorem word32_ofUInt64 (n : UInt32) : word32 (Json.ofUInt64 n.toUInt64).draft = .ok n := by
  have hupper : (n.toNat : Int) < 4294967296 := Int.ofNat_lt.mpr n.toNat_lt
  simp [word32, Json.ofUInt64, Json.draft, hupper]

theorem contract_toJson (c : Contract) : contract c.toJson.draft = .ok c := by
  obtain ⟨version, name, description, methods⟩ := c
  have hversion : ContractFields.add {} "version" (Json.ofUInt64 version.toUInt64).draft =
      .ok { version := some version } := by
    simp only [ContractFields.add, field, word32_ofUInt64]
    rfl
  have hmethods : ContractFields.add ⟨some version, some name, description.map some, none⟩
      "methods" (Json.array (methods.map Method.toJson)).draft =
        .ok ⟨some version, some name, description.map some, some methods⟩ := by
    simp only [ContractFields.add, field, list_map method_toJson]
    rfl
  have hrecord : record {} ContractFields.add (Json.memberDrafts
      (("version", .ofUInt64 version.toUInt64) :: ("name", .string name) ::
        (Json.optional "description" Json.string description ++
          [("methods", .array (methods.map Method.toJson))]))) .closed =
      .ok ⟨some version, some name, description.map some, some methods⟩ := by
    rw [record_cons _ hversion, record_cons ⟨some version, some name, none, none⟩ rfl,
      record_optional ⟨some version, some name, description.map some, none⟩
        (by rintro rfl; rfl) (by rintro s rfl; rfl),
      record_cons _ hmethods]
    rfl
  show (record {} ContractFields.add (Json.memberDrafts _) .closed >>= _) = _
  rw [List.append_assoc, List.cons_append, List.cons_append, List.nil_append, hrecord]
  cases description <;> rfl

end Document

/-! ## Texts -/

theorem Method.hasNoDouble_toJson (m : Method) : m.toJson.HasNoDouble := by
  have hparams : ∀ ps : List Param, Json.AllHaveNoDouble (ps.map Param.toJson) := by
    intro ps
    induction ps with
    | nil => trivial
    | cons p ps ih => exact ⟨⟨trivial, trivial, trivial⟩, ih⟩
  obtain ⟨name, params, returns, route⟩ := m
  cases returns <;> cases route <;>
    simp [Method.toJson, Route.toJson, Json.optional, Json.HasNoDouble, Json.MembersHaveNoDouble,
      hparams]

theorem Contract.hasNoDouble_toJson (c : Contract) : c.toJson.HasNoDouble := by
  have hmethods : ∀ ms : List Method, Json.AllHaveNoDouble (ms.map Method.toJson) := by
    intro ms
    induction ms with
    | nil => trivial
    | cons m ms ih => exact ⟨m.hasNoDouble_toJson, ih⟩
  obtain ⟨version, name, description, methods⟩ := c
  cases description <;>
    simp [Contract.toJson, Json.ofUInt64, Json.optional, Json.HasNoDouble, Json.MembersHaveNoDouble,
      hmethods]

namespace Contract

theorem ofJsonText_canonical (c : Contract) : ofJsonText c.canonical = .ok c := by
  have hread := Json.Draft.ofChars_toChars c.hasNoDouble_toJson
  rw [ofJsonText, canonical, Json.render, String.toList_ofList, Document.whole, hread]
  dsimp only
  rw [Document.contract_toJson]
  rfl

theorem canonical_inj {c d : Contract} : c.canonical = d.canonical ↔ c = d := by
  constructor
  · intro h
    have hread := ofJsonText_canonical c
    rw [h, ofJsonText_canonical d] at hread
    exact (Except.ok.inj hread).symm
  · exact congrArg canonical

/-- **The canonical text says everything.** It is read back as the contract that it was written for,
and it tells contracts apart, as fingerprints do whose texts do not collide. -/
theorem canonical_faithful :
    (∀ (remarks : JsonRemarks) (c : Contract),
        fromJson remarks c.canonical none = .ok c ↔ c.IsValid) ∧
      (∀ c d : Contract, c.canonical.toUTF8 = d.canonical.toUTF8 ↔ c = d) ∧
      ∀ c d : Contract,
        (Sha256.digest c.canonical.toUTF8.toList = Sha256.digest d.canonical.toUTF8.toList →
          c.canonical.toUTF8.toList = d.canonical.toUTF8.toList) →
        (c.fingerprint = d.fingerprint ↔ c = d) := by
  refine ⟨fun remarks c => ?_, fun c d => ?_, fun c d hcollision => ?_⟩
  · rw [fromJson, ofJsonText_canonical]
    show c.accept = .ok c ↔ c.violations = []
    unfold accept
    split <;> simp_all
  · exact String.toByteArray_inj.trans canonical_inj
  · rw [fingerprint, fingerprint, Sha256.ofText_eq_iff]
    constructor
    · intro hdigest
      exact canonical_inj.mp (Sha256.toUTF8_toList_inj.mp (hcollision hdigest))
    · rintro rfl
      rfl

/-- A contract whose one method has two parameters and no route. -/
def unrouted (first second : String) : Contract where
  name := "I"
  methods := [{ name := "m", params := [⟨first, "T"⟩, ⟨second, "T"⟩] }]

/-- The order of parameters shows in the fingerprint. -/
theorem canonical_faithful_order :
    Sha256.digest (unrouted "p" "q").canonical.toUTF8.toList ≠
        Sha256.digest (unrouted "q" "p").canonical.toUTF8.toList ∧
      (unrouted "p" "q").fingerprint ≠ (unrouted "q" "p").fingerprint := by
  have hdigests : Sha256.digest (unrouted "p" "q").canonical.toUTF8.toList ≠
      Sha256.digest (unrouted "q" "p").canonical.toUTF8.toList := by
    decide +kernel
  obtain ⟨-, -, hfingerprint⟩ := canonical_faithful
  refine ⟨hdigests, mt (hfingerprint _ _ fun h => absurd h hdigests).mp ?_⟩
  decide

end Contract

end ClientSynth

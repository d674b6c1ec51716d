import ClientSynth.Invocation.Run
import ClientSynth.Proofs.Route.Substitution
import ClientSynth.Proofs.Synthesis.Blocks
import ClientSynth.Proofs.Synthesis.Positions
import ClientSynth.Transport.Config
import Mathlib.Data.List.DropRight

/-!
# `ClientSynth.Proofs.Invocation.Addresses` — where requests can go

Values are put into an address as they are, and an address that looks absolute is not joined with the
base. So it has to be said why an argument such as `http://elsewhere` does not take a request away from
the base of its transport. Three things come together: filling a path keeps the slash that it starts with,
an address that starts with a slash is joined with the base, and a request has no other address than one
that a frame built (`address_of_sent`).

> `synthesize_rooted`: if the path of a route starts with a slash, all requests of the method go to
> addresses that start with the base of the transport and a slash, whatever the arguments are.
-/

set_option autoImplicit false

namespace ClientSynth

/-! ## Addresses and the base -/

namespace TransportConfig

/-- What is left of a base when the slashes at its end are left out. -/
structure IsRoot (root : List Char) (base : String) : Prop where
  ending : root.getLast? ≠ some '/'
  slashes : ∃ n, base.toList = root ++ List.replicate n '/'

/-- What is left of an address when the slashes at its start are left out. -/
structure IsRest (rest : List Char) (url : String) : Prop where
  start : rest.head? ≠ some '/'
  slashes : ∃ n, url.toList = List.replicate n '/' ++ rest

theorem exists_eq_replicate {cs : List Char} (h : ∀ c ∈ cs, c = '/') :
    ∃ n, cs = List.replicate n '/' :=
  ⟨_, List.eq_replicate_of_mem h⟩

theorem isRoot_dropEndSlashes (base : String) : IsRoot (dropEndSlashes base.toList) base where
  ending h := by
    have hne : base.toList.rdropWhile (· = '/') ≠ [] := by
      intro hnil
      rw [dropEndSlashes, ← List.rdropWhile, hnil] at h
      cases h
    have hlast := List.rdropWhile_last_not (fun c => decide (c = '/')) base.toList hne
    rw [dropEndSlashes, ← List.rdropWhile, List.getLast?_eq_some_getLast hne,
      Option.some.injEq] at h
    exact hlast (decide_eq_true h)
  slashes := by
    obtain ⟨n, hn⟩ : ∃ n, base.toList.rtakeWhile (· = '/') = List.replicate n '/' :=
      exists_eq_replicate fun c hc => by simpa using List.mem_rtakeWhile_imp hc
    exact ⟨n, by rw [← hn]; exact List.rdropWhile_append_rtakeWhile.symm⟩

theorem isRest_dropSlashes (url : String) : IsRest (dropSlashes url.toList) url where
  start h := by
    have hnot := List.head?_dropWhile_not (fun c => decide (c = '/')) url.toList
    rw [dropSlashes] at h
    simp [h] at hnot
  slashes := by
    obtain ⟨n, hn⟩ : ∃ n, url.toList.takeWhile (· = '/') = List.replicate n '/' :=
      exists_eq_replicate fun c hc => by simpa using List.mem_takeWhile_imp hc
    exact ⟨n, by rw [← hn]; exact List.takeWhile_append_dropWhile.symm⟩

/-- An address that starts with a slash is joined with the base. -/
theorem resolveUrl_of_slash {config : TransportConfig} {base url : String}
    (hbase : config.baseUrl = some base) (hurl : url.toList.head? = some '/') :
    config.resolveUrl url = join base url := by
  obtain ⟨rest, hrest⟩ : ∃ rest, url.toList = '/' :: rest := by
    cases h : url.toList with
    | nil => simp [h] at hurl
    | cons c rest => exact ⟨rest, by simpa [h] using hurl⟩
  have habsolute : isAbsolute url = false := by
    simp [isAbsolute, hrest, List.isPrefixOf]
  rw [resolveUrl, habsolute, hbase]
  rfl

end TransportConfig

/-! ## Where the addresses of requests come from -/

variable {τ : Type}

/-- The address that a slot has, if it has one. -/
def Slot.address? : Slot τ → Option String
  | .url text => some text
  | .request r => some r.url
  | _ => none

/-- The address in what a frame comes to, if there is one. -/
def Action.address? : Action τ → Option String
  | .keep slot => slot.address?
  | .send _ r => some r.url

namespace CallContext

/-- Whether a frame builds an address, from a path and the arguments of the call. -/
def Builds (cx : CallContext τ) (f : Frame) (url : String) : Prop :=
  ∃ path bs, f.op = .buildUrl path bs ∧ Template.fill path (cx.placeholderText bs) = .ok url

variable {cx : CallContext τ} {slots : List (Slot τ)} {f : Frame} {a : Action τ} {url : String}

/-- The frame that builds the address leaves nothing else. -/
theorem builds_iff_perform (hkind : f.kind = .buildUrl) :
    cx.Builds f url ↔ cx.perform slots f = .ok (.keep (.url url)) := by
  obtain ⟨op, inputs, output⟩ := f
  cases op with
  | buildUrl path bs =>
    show _ ↔ cx.buildUrl path bs = _
    unfold buildUrl Builds
    cases h : Template.fill path (cx.placeholderText bs) with
    | ok built => simp [h]
    | error name => simp [h]
  | _ => cases hkind

theorem mem_of_slotInput {position : Nat} {s : Slot τ} (h : cx.slotInput slots f position = .ok s) :
    s ∈ slots := by
  unfold slotInput at h
  split at h
  · rename_i i _
    cases hs : slots[i.toNat]? with
    | none => simp [hs] at h
    | some s' =>
      obtain rfl : s' = s := by simpa [hs] using h
      exact List.mem_of_getElem? hs
  · cases h

theorem address?_buildRequest {verb : Verb} {hasBody : Bool}
    (h : cx.buildRequest slots f verb hasBody = .ok a) : ∃ s ∈ slots, s.address? = a.address? := by
  obtain ⟨s, hs, h⟩ := bind_eq_ok_iff.mp h
  refine ⟨s, mem_of_slotInput hs, ?_⟩
  cases s with
  | url text =>
    cases hasBody with
    | false =>
      obtain rfl : Action.keep (.request (.new verb text)) = a := by simpa using h
      rfl
    | true =>
      obtain ⟨body, -, h⟩ := bind_eq_ok_iff.mp h
      cases body with
      | body bytes =>
        obtain rfl : Action.keep (.request ((Request.new verb text).withJsonBody bytes)) = a := by
          simpa using h
        rfl
      | _ => cases h
  | _ => cases h

theorem address?_invokeTransport (h : cx.invokeTransport slots f = .ok a) :
    ∃ s ∈ slots, s.address? = a.address? := by
  obtain ⟨s, -, h⟩ := bind_eq_ok_iff.mp h
  cases s with
  | transport t =>
    obtain ⟨s, hs, h⟩ := bind_eq_ok_iff.mp h
    refine ⟨s, mem_of_slotInput hs, ?_⟩
    cases s with
    | request r =>
      obtain rfl : Action.send t r = a := by simpa using h
      rfl
    | _ => cases h
  | _ => cases h

/-- An address in what a frame comes to is one that the frame builds or one that some slot has. -/
theorem address?_perform (h : cx.perform slots f = .ok a) (hurl : a.address? = some url) :
    cx.Builds f url ∨ ∃ s ∈ slots, s.address? = some url := by
  have hperform := h
  unfold perform at h
  cases hop : f.op with rw [hop] at h
  | acquireTransport interface =>
    dsimp only at h
    split at h <;> cases h
    cases hurl
  | buildUrl path bs =>
    unfold buildUrl at h
    dsimp only at h
    split at h <;> cases h
    rename_i hfill
    cases hurl
    exact Or.inl ⟨path, bs, hop, hfill⟩
  | serializeBody type =>
    obtain ⟨v, -, h⟩ := bind_eq_ok_iff.mp h
    unfold serialize at h
    split at h <;> cases h
    cases hurl
  | buildRequest verb hasBody => exact Or.inr (hurl ▸ address?_buildRequest h)
  | invokeTransport => exact Or.inr (hurl ▸ address?_invokeTransport h)
  | deserializeResponse type =>
    obtain ⟨s, -, h⟩ := bind_eq_ok_iff.mp h
    cases s with
    | response r =>
      unfold deserialize at h
      dsimp only at h
      split at h <;> cases h
      cases hurl
    | _ => cases h
  | returnValue =>
    dsimp only at h
    split at h
    · cases h
      cases hurl
    · cases hv : cx.valueInput slots f 0 with
      | error e => simp [hv] at h
      | ok v =>
        obtain rfl : Action.keep (.value v) = a := by simpa [hv] using h
        cases hurl

/-- **The address of a request that a run sends** was built by one of the frames, unless some slot had it
before the run. -/
theorem address_of_sent (deliver : τ → Request → Delivery) {q : τ × Request} :
    ∀ {frames : List Frame} {slots : List (Slot τ)}, q ∈ (cx.run deliver slots frames).sent →
      (∃ f ∈ frames, cx.Builds f q.2.url) ∨ ∃ s ∈ slots, s.address? = some q.2.url
  | [], _, h => absurd h List.not_mem_nil
  | f :: rest, slots, h => by
    -- The frames after `f` find the slots that were there before and the one that `f` left.
    have hlater : ∀ s : Slot τ,
        (∀ url, s.address? = some url → cx.Builds f url ∨ ∃ s ∈ slots, s.address? = some url) →
        q ∈ (cx.run deliver (slots ++ [s]) rest).sent →
        (∃ g ∈ f :: rest, cx.Builds g q.2.url) ∨ ∃ s ∈ slots, s.address? = some q.2.url := by
      intro s hs hq
      rcases address_of_sent deliver hq with ⟨g, hg, hbuilt⟩ | ⟨s', hs', haddress⟩
      · exact Or.inl ⟨g, List.mem_cons_of_mem f hg, hbuilt⟩
      · rcases List.mem_append.mp hs' with hs' | hs'
        · exact Or.inr ⟨s', hs', haddress⟩
        · obtain rfl := List.mem_singleton.mp hs'
          exact (hs _ haddress).imp_left fun hbuilt => ⟨f, List.mem_cons_self, hbuilt⟩
    rw [run] at h
    cases hf : cx.perform slots f with
    | error e => simp [hf] at h
    | ok a =>
      have ha : ∀ url, a.address? = some url → cx.Builds f url ∨ ∃ s ∈ slots, s.address? = some url :=
        fun url => address?_perform hf
      cases a with
      | keep slot =>
        simp only [hf] at h
        split at h
        · exact absurd h List.not_mem_nil
        · exact hlater slot ha h
      | send t r =>
        have hr : (∃ g ∈ f :: rest, cx.Builds g r.url) ∨ ∃ s ∈ slots, s.address? = some r.url :=
          (ha r.url rfl).imp_left fun hbuilt => ⟨f, List.mem_cons_self, hbuilt⟩
        cases haccept : cx.accept (deliver t r) with
        | error e =>
          obtain rfl : q = (t, r) := by simpa [hf, haccept] using h
          exact hr
        | ok response =>
          simp only [hf, haccept] at h
          rcases List.mem_cons.mp h with rfl | h
          · exact hr
          · exact hlater (.response response) (fun url hurl => by cases hurl) h

end CallContext

/-! ## Rooted routes -/

/-- Filling a path keeps the slash that it starts with. -/
theorem Template.head?_fill {path url : String} {value : String → Option String}
    (h : fill path value = .ok url) (hpath : path.toList.head? = some '/') :
    url.toList.head? = some '/' :=
  (fillPieces_eq_ok_iff.mp h).head?_eq hpath (by decide)

namespace Plan

variable {interface : String} {m : Method} {p : Plan}

/-- What a plan builds from a rooted route starts with a slash. -/
theorem IsFor.head?_of_builds (hp : p.IsFor interface m)
    (hrooted : p.route.path.toList.head? = some '/') {cx : CallContext τ} {f : Frame}
    (hf : f ∈ p.chain.frames) {url : String} (h : cx.Builds f url) : url.toList.head? = some '/' := by
  obtain ⟨path, bs, hop, hfill⟩ := h
  obtain ⟨g, hfilter, hg⟩ := hp.bindings
  have hmem : f ∈ p.chain.frames.filter (·.kind == .buildUrl) :=
    List.mem_filter.mpr ⟨hf, by rw [Frame.kind, hop]; rfl⟩
  rw [hfilter, List.mem_singleton] at hmem
  subst hmem
  obtain ⟨rfl, -⟩ : path = p.route.path ∧ _ := by simpa using hop.symm.trans hg
  exact Template.head?_fill hfill hrooted

end Plan

namespace Contract

variable {c : Contract} {impl : Implementation} {p : Plan}

/-- Every request of a method with a rooted route has an address that starts with a slash. -/
theorem head?_of_sent (h : c.synthesize = .ok impl) (hp : p ∈ impl.plans)
    (hrooted : p.route.path.toList.head? = some '/') (resolve : String → Option τ)
    (fault : ByteArray → String) (limit : Option Duration) (answer : τ → Request → Answer)
    (arguments : List Json) {q : τ × Request}
    (hq : q ∈ ((Client.mk impl resolve fault limit).invoke answer p.name arguments).sent) :
    q.2.url.toList.head? = some '/' := by
  obtain ⟨m, hm, hfor⟩ := exists_method h hp
  have hname : p.name = m.name := by rw [Plan.name, hfor.contract]
  rcases plan?_of_mem h hm with ⟨hnone, -⟩ | ⟨p', hfor', hfind⟩
  · exact absurd (hnone.symm.trans hfor.route) (by simp)
  · have hroute : p'.route = p.route := Option.some.inj (hfor'.route.symm.trans hfor.route)
    unfold Client.invoke Client.begin? at hq
    rw [hname, hfind] at hq
    by_cases hlength : arguments.length = p'.chain.arguments.length
    · simp only [if_pos hlength] at hq
      rcases CallContext.address_of_sent _ hq with ⟨f, hf, hbuilt⟩ | ⟨s, hs, -⟩
      · exact hfor'.head?_of_builds (hroute ▸ hrooted) hf hbuilt
      · exact absurd hs List.not_mem_nil
    · simp [hlength] at hq

/-- **Arguments cannot take a request away from the base.** Of a base there is one root that does not
depend on any argument. Whenever the frame of a rooted route that builds the address succeeds, with any
arguments, the address is resolved to the root, a slash, and what the address has after its slashes; and
every request that a call of the method sends, with any arguments, goes to an address that starts with the
root and a slash. -/
theorem synthesize_rooted (h : c.synthesize = .ok impl) (hp : p ∈ impl.plans)
    (hrooted : p.route.path.toList.head? = some '/') {config : TransportConfig} {base : String}
    (hbase : config.baseUrl = some base) :
    ∃ root, TransportConfig.IsRoot root base ∧
      (∃ f ∈ p.chain.frames, f.kind = .buildUrl) ∧
      (∀ f ∈ p.chain.frames, f.kind = .buildUrl →
        ∀ (τ : Type) (cx : CallContext τ) (slots : List (Slot τ)) (url : String),
          cx.perform slots f = .ok (.keep (.url url)) →
            ∃ rest, TransportConfig.IsRest rest url ∧
              (config.resolveUrl url).toList = root ++ '/' :: rest) ∧
      ∀ (τ : Type) (resolve : String → Option τ) (fault : ByteArray → String)
        (limit : Option Duration) (answer : τ → Request → Answer) (arguments : List Json),
        ∀ q ∈ ((Client.mk impl resolve fault limit).invoke answer p.name arguments).sent,
          root ++ ['/'] <+: (config.resolveUrl q.2.url).toList := by
  have hjoined : ∀ url : String, url.toList.head? = some '/' → (config.resolveUrl url).toList =
      TransportConfig.dropEndSlashes base.toList ++ '/' :: TransportConfig.dropSlashes url.toList := by
    intro url hurl
    rw [TransportConfig.resolveUrl_of_slash hbase hurl, TransportConfig.join, String.toList_ofList]
  obtain ⟨m, -, hfor⟩ := exists_method h hp
  refine ⟨_, TransportConfig.isRoot_dropEndSlashes base, ?_, ?_, ?_⟩
  · obtain ⟨f, hfilter, -⟩ := hfor.bindings
    have hmem : f ∈ p.chain.frames.filter (·.kind == .buildUrl) := hfilter ▸ List.mem_singleton_self f
    exact ⟨f, (List.mem_filter.mp hmem).1, by simpa using (List.mem_filter.mp hmem).2⟩
  · intro f hf hkind τ cx slots url hperform
    have hurl := hfor.head?_of_builds hrooted hf ((CallContext.builds_iff_perform hkind).mpr hperform)
    exact ⟨_, TransportConfig.isRest_dropSlashes url, hjoined url hurl⟩
  · intro τ resolve fault limit answer arguments q hq
    rw [hjoined _ (head?_of_sent h hp hrooted resolve fault limit answer arguments hq)]
    exact ⟨TransportConfig.dropSlashes q.2.url.toList, by simp⟩

/-- An interface whose one method puts its argument after the first slash of the address. -/
def opening : Contract where
  name := "IFiles"
  methods := [{ name := "open", params := [⟨"name", "String"⟩], route := some ⟨"/{name}", .get⟩ }]

/-- An argument that looks like an address of its own becomes a part of the path. -/
theorem synthesize_rooted_elsewhere :
    ∃ impl p, opening.synthesize = .ok impl ∧ p ∈ impl.plans ∧
      p.route.path.toList.head? = some '/' ∧
      ∃ root q, TransportConfig.IsRoot root "http://files//" ∧
        ((Client.mk impl (fun _ => some ()) (fun _ => "malformed") none).invoke
          (fun _ _ => { reply := .failure "no network" }) p.name
            [.string "http://elsewhere"]).sent = [q] ∧
        q.2.url = "/http://elsewhere" ∧
        root ++ ['/'] <+: (TransportConfig.resolveUrl { baseUrl := some "http://files//" }
          q.2.url).toList := by
  have hsent : opening.synthesize.toOption.map (fun impl =>
      ((Client.mk impl (fun _ => some ()) (fun _ => "malformed") none).invoke
        (fun _ _ => { reply := .failure "no network" }) "open"
          [.string "http://elsewhere"]).sent.map (·.2.url)) = some ["/http://elsewhere"] := by
    decide +kernel
  cases h : opening.synthesize with
  | error e => simp [h, Except.toOption] at hsent
  | ok impl =>
    obtain ⟨p, hp, hfor, hroute⟩ := exists_plan h List.mem_cons_self rfl
    have hrooted : p.route.path.toList.head? = some '/' := by rw [hroute]; decide
    obtain ⟨root, hroot, -, -, hrequests⟩ := synthesize_rooted h hp hrooted
      (show TransportConfig.baseUrl { baseUrl := some "http://files//" } = some "http://files//" from rfl)
    have hname : p.name = "open" := by rw [Plan.name, hfor.contract]
    obtain ⟨q, hq, hurl⟩ : ∃ q,
        ((Client.mk impl (fun _ => some ()) (fun _ => "malformed") none).invoke
          (fun _ _ => { reply := .failure "no network" }) p.name
            [.string "http://elsewhere"]).sent = [q] ∧ q.2.url = "/http://elsewhere" := by
      simpa [h, Except.toOption, hname, List.map_eq_singleton_iff] using hsent
    refine ⟨impl, p, rfl, hp, hrooted, root, q, hroot, hq, hurl, ?_⟩
    exact hrequests Unit _ _ _ _ _ q (hq ▸ List.mem_singleton_self q)

end Contract

end ClientSynth

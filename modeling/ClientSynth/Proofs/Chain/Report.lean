import ClientSynth.Proofs.Chain.Soundness
import ClientSynth.Proofs.Lists

/-!
# `ClientSynth.Proofs.Chain.Report` — what is reported of frames

`Issue.all` goes over the frames with those that it has passed at hand. Here its report is said without
the going over: the things that are looked at are `sites`, every input of every frame and then the place
of the frame among the others, and what can be wrong with one of them is `Site.Fault`, which speaks of
positions in the whole list.

> the report has one issue for each site where something is wrong, in the order of the sites, and none
> for the others (`reports_all`).
-/

set_option autoImplicit false

namespace ClientSynth

/-- Something about a list of frames that can be wrong. -/
inductive Site where
  /-- An input of the frame at a position. -/
  | input (position : Nat) (f : Frame) (r : Ref)
  /-- Whether the frame at a position returns. -/
  | place (position : Nat) (f : Frame)

namespace Site

/-- The sites of frames, the first of which has the position `start`: of each frame its inputs in order,
and then its place. -/
def ofFrames (start : Nat) : List Frame → List Site
  | [] => []
  | f :: rest => f.inputs.map (input start f) ++ place start f :: ofFrames (start + 1) rest

variable (count : Nat) (frames : List Frame)

/-- What is wrong at a site of `frames`, which read `count` parameters. -/
inductive Fault : Site → Issue → Prop
  | argumentOutOfBounds {i : Nat} {f : Frame} {a : UInt16} (h : count ≤ a.toNat) :
      Fault (input i f (.argument a)) (.argumentOutOfBounds i f.kind a count)
  | selfReference {i : Nat} {f : Frame} {j : UInt16} (h : j.toNat = i) :
      Fault (input i f (.frame j)) (.selfReference i f.kind)
  | forwardReference {i : Nat} {f : Frame} {j : UInt16} (h : i < j.toNat) :
      Fault (input i f (.frame j)) (.forwardReference i f.kind j)
  | missingOutput {i : Nat} {f g : Frame} {j : UInt16} (h : j.toNat < i)
      (hg : frames[j.toNat]? = some g) (ho : g.output = none) :
      Fault (input i f (.frame j)) (.missingOutput i f.kind j g.kind)
  | missingReturn {i : Nat} {f : Frame} (hlast : i + 1 = frames.length) (hk : f.kind ≠ .returnValue) :
      Fault (place i f) (.missingReturn i f.kind)
  | earlyReturn {i : Nat} {f : Frame} (hlast : i + 1 ≠ frames.length) (hk : f.kind = .returnValue) :
      Fault (place i f) (.earlyReturn i)

/-- The position of the frame that a site is of. -/
def position : Site → Nat
  | input i _ _ | place i _ => i

variable {count frames} {site : Site} {x y : Issue}

/-- An issue carries the position of its frame. -/
theorem Fault.frame_eq (h : site.Fault count frames x) : x.frame = site.position := by
  cases h <;> rfl

/-- An issue is a misplaced return just where the place of a frame is wrong. -/
theorem Fault.kind_eq_misplacedReturn_iff (h : site.Fault count frames x) :
    x.kind = .misplacedReturn ↔ ∃ i f, site = .place i f := by
  cases h <;> simp [Issue.kind]

/-- No site is at fault in two ways. -/
theorem Fault.unique (h : site.Fault count frames x) (h' : site.Fault count frames y) : x = y := by
  cases h with
  | argumentOutOfBounds =>
    cases h' with
    | argumentOutOfBounds => rfl
  | selfReference h =>
    cases h' with
    | selfReference => rfl
    | forwardReference h' | missingOutput h' => omega
  | forwardReference h =>
    cases h' with
    | forwardReference => rfl
    | selfReference h' | missingOutput h' => omega
  | missingOutput h hg =>
    cases h' with
    | missingOutput _ hg' =>
      cases hg.symm.trans hg'
      rfl
    | selfReference h' | forwardReference h' => omega
  | missingReturn hlast =>
    cases h' with
    | missingReturn => rfl
    | earlyReturn hnot => exact absurd hlast hnot
  | earlyReturn hnot =>
    cases h' with
    | earlyReturn => rfl
    | missingReturn hlast => exact absurd hlast hnot

end Site

namespace Issue

variable {count : Nat} {before rest : List Frame} {f : Frame}

/-- Of an input is reported what is wrong with it. -/
theorem ofInput_eq_some_iff (r : Ref) (x : Issue) :
    ofInput count before before.length f.kind r = some x ↔
      Site.Fault count (before ++ f :: rest) (.input before.length f r) x := by
  constructor
  · intro h
    cases r with
    | argument a =>
      by_cases ha : a.toNat < count
      · simp [ofInput, ha] at h
      · obtain rfl : argumentOutOfBounds before.length f.kind a count = x := by
          simpa [ofInput, ha] using h
        exact .argumentOutOfBounds (Nat.le_of_not_lt ha)
    | frame j =>
      rcases Nat.lt_trichotomy j.toNat before.length with hlt | heq | hgt
      · have hne : j.toNat ≠ before.length := Nat.ne_of_lt hlt
        have hnot : ¬ before.length < j.toNat := Nat.lt_asymm hlt
        cases ho : before[j.toNat].output with
        | some v => simp [ofInput, hne, hnot, hlt, ho] at h
        | none =>
          obtain rfl : missingOutput before.length f.kind j before[j.toNat].kind = x := by
            simpa [ofInput, hne, hnot, hlt, ho] using h
          refine .missingOutput hlt ?_ ho
          rw [List.getElem?_append_left hlt, List.getElem?_eq_getElem hlt]
      · obtain rfl : selfReference before.length f.kind = x := by simpa [ofInput, heq] using h
        exact .selfReference heq
      · have hne : j.toNat ≠ before.length := Nat.ne_of_gt hgt
        obtain rfl : forwardReference before.length f.kind j = x := by
          simpa [ofInput, hne, hgt] using h
        exact .forwardReference hgt
  · intro h
    cases h with
    | argumentOutOfBounds h => exact if_neg (Nat.not_lt_of_le h)
    | selfReference h => exact if_pos h
    | forwardReference h => simp [ofInput, Nat.ne_of_gt h, h]
    | missingOutput h hg ho =>
      rw [List.getElem?_append_left h] at hg
      simp [ofInput, Nat.ne_of_lt h, Nat.lt_asymm h, hg, ho]

/-- Of a place is reported what is wrong with it. -/
theorem reports_ofPlace :
    Reports (Site.Fault count (before ++ f :: rest)) [.place before.length f]
      (ofPlace before.length f.kind rest.isEmpty) := by
  have hlast : before.length + 1 = (before ++ f :: rest).length ↔ rest.isEmpty = true := by
    cases rest <;> simp
  unfold ofPlace
  by_cases hk : f.kind = .returnValue
  · rw [hk]
    cases hl : rest.isEmpty with
    | true =>
      refine .none (fun x hx => ?_) .nil
      cases hx with
      | missingReturn _ hnot => exact hnot hk
      | earlyReturn hnot => exact hnot (hlast.mpr hl)
    | false => exact .one (.earlyReturn (fun h => by simp [hlast.mp h] at hl) hk) .nil
  · have hb : (f.kind == FrameKind.returnValue) = false := by simpa using hk
    rw [hb]
    cases hl : rest.isEmpty with
    | true => exact .one (.missingReturn (hlast.mpr hl) hk) .nil
    | false =>
      refine .none (fun x hx => ?_) .nil
      cases hx with
      | missingReturn h => simp [hlast.mp h] at hl
      | earlyReturn _ h => exact hk h

theorem reports_ofFrames (rest before : List Frame) :
    Reports (Site.Fault count (before ++ rest)) (Site.ofFrames before.length rest)
      (ofFrames count before rest) := by
  induction rest generalizing before with
  | nil => exact .nil
  | cons f rest ih =>
    have hinputs : Reports (Site.Fault count (before ++ f :: rest))
        (f.inputs.map (.input before.length f))
        (f.inputs.filterMap (ofInput count before before.length f.kind)) :=
      Reports.map_filterMap ofInput_eq_some_iff f.inputs
    -- The next frame comes after the same frames and `f`.
    have hlater := ih (before ++ [f])
    rw [List.append_assoc, List.length_append] at hlater
    rw [ofFrames, Site.ofFrames, List.append_assoc]
    exact hinputs.append (reports_ofPlace.append hlater)

/-- **What is reported of frames.** The report is empty exactly when there are frames, every input of
each can be read there, and the last of them and no other returns. Otherwise, if there are frames, it
has one issue for each input and each place that is at fault, which says what the fault is and of which
frame, in the order of the frames and of their inputs, with the place of a frame after its inputs; and
if there are none, that is the one issue. -/
theorem all_reports (count : Nat) (frames : List Frame) :
    (all count frames = [] ↔
      frames ≠ [] ∧ ∀ i f, frames[i]? = some f →
        (∀ r ∈ f.inputs, r.IsAvailable count frames i) ∧
          (f.kind = .returnValue ↔ i + 1 = frames.length)) ∧
    (frames ≠ [] → Reports (Site.Fault count frames) (Site.ofFrames 0 frames) (all count frames)) ∧
    (∀ site x, Site.Fault count frames site x →
      x.frame = site.position ∧ (x.kind = .misplacedReturn ↔ ∃ i f, site = .place i f) ∧
        ∀ y, Site.Fault count frames site y → y = x) ∧
    all count [] = [noFrames] := by
  refine ⟨all_eq_nil_iff, fun hne => ?_, fun site x h => ?_, rfl⟩
  · rw [all, if_neg (by simpa using hne)]
    exact reports_ofFrames frames []
  · exact ⟨h.frame_eq, h.kind_eq_misplacedReturn_iff, fun y h' => h'.unique h⟩

/-- Frames with something wrong at all of their sites. -/
def tangled : List Frame :=
  [⟨.returnValue, [.argument 1], none⟩,
   ⟨.invokeTransport, [.frame 0, .frame 1, .frame 2], some ⟨"response", .named "HttpResponse"⟩⟩]

theorem all_reports_tangled :
    tangled ≠ [] ∧
      all 1 tangled =
        [.argumentOutOfBounds 0 .returnValue 1 1, .earlyReturn 0,
         .missingOutput 1 .invokeTransport 0 .returnValue, .selfReference 1 .invokeTransport,
         .forwardReference 1 .invokeTransport 2, .missingReturn 1 .invokeTransport] ∧
      Reports (Site.Fault 1 tangled) (Site.ofFrames 0 tangled) (all 1 tangled) := by
  have hne : tangled ≠ [] := by decide
  exact ⟨hne, by decide, (all_reports 1 tangled).2.1 hne⟩

end Issue

end ClientSynth

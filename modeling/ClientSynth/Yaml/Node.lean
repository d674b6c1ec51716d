import ClientSynth.Yaml.Token

/-!
# `ClientSynth.Yaml.Node` — the tree of a YAML document

A node is a scalar, a sequence, a mapping, or an alias for a node that took a slot. A missing node,
as the value in `a:`, is the empty plain scalar.

The functions that read nodes take tokens and give the tokens that are left. Each passes a token that
it has looked at, and a reader that goes on after a node first makes sure that the node took one, so
all of them end.
-/

set_option autoImplicit false

namespace ClientSynth.Yaml

/-- A node of a document, with the slot it takes and its tag. -/
inductive Node where
  | alias (slot : Nat)
  | scalar (anchor : Option Nat) (tag : Option String) (style : Style) (text : String)
  | sequence (anchor : Option Nat) (tag : Option String) (items : List Node)
  | mapping (anchor : Option Nat) (tag : Option String) (pairs : List (Node × Node))
  deriving Inhabited

namespace Node

/-- The node that stands where nothing is written. -/
def empty : Node := .scalar none none .plain ""

/-- What handles stand for. -/
abbrev Handles := List (List Char × List Char)

/-- The handles that need no directive. -/
def standardHandles : Handles :=
  [(['!'], ['!']), ("!!".toList, "tag:yaml.org,2002:".toList)]

/-- The properties before a node: an anchor and a tag in either order. -/
structure Properties where
  anchor : Option Nat := none
  tag : Option (List Char × List Char) := none

def Properties.isSome (p : Properties) : Bool := p.anchor.isSome || p.tag.isSome

/-- The properties at the start of some tokens, and the tokens after them. -/
def properties : List Token → Properties × List Token
  | .anchor a :: .tag h s :: rest => ({ anchor := some a, tag := some (h, s) }, rest)
  | .tag h s :: .anchor a :: rest => ({ anchor := some a, tag := some (h, s) }, rest)
  | .anchor a :: rest => ({ anchor := some a }, rest)
  | .tag h s :: rest => ({ tag := some (h, s) }, rest)
  | rest => ({}, rest)

theorem length_properties_le (ts : List Token) : (properties ts).2.length ≤ ts.length := by
  fun_cases properties ts <;> simp <;> omega

/-- The tag that a handle and a suffix make; an error if the handle is unknown. -/
def tagName? (handles : Handles) : Option (List Char × List Char) → Option (Option String)
  | none => some none
  | some ([], suffix) => some (some (String.ofList suffix))
  | some (handle, suffix) =>
    (handles.lookup handle).map fun stem => some (String.ofList (stem ++ suffix))

/-- Whether the node that is due is missing, where one of `ends` would end it. -/
def isMissing (ends : List Token) : List Token → Bool
  | t :: _ => ends.contains t
  | [] => false

/-- The tokens of the next part of a flow collection: a comma comes before each but the first. -/
def separated? (isFirst : Bool) (ts : List Token) : Option (List Token) :=
  if isFirst then some ts
  else
    match ts with
    | .flowEntry :: rest => some rest
    | _ => none

theorem length_separated? {isFirst : Bool} {ts rest : List Token}
    (h : separated? isFirst ts = some rest) : rest.length ≤ ts.length := by
  revert h
  fun_cases separated? isFirst ts <;> simp <;> intro h <;> simp [← h]

mutual

/-- A node. Outside flow collections it may be a block collection, and as part of a block mapping a
sequence that is not indented. -/
def read? (handles : Handles) (inBlock unindented : Bool) (ts : List Token) :
    Option (Node × List Token) :=
  match ts with
  | .alias slot :: rest => some (.alias slot, rest)
  | ts =>
    let p := (properties ts).1
    match _h : (properties ts).2, tagName? handles p.tag with
    | _, none => none
    | rest, some tag =>
      have := length_properties_le ts
      match rest with
      | .scalar style text :: rest =>
        let tag := if tag = some "!" then none else tag
        some (.scalar p.anchor tag style (String.ofList text), rest)
      | .flowSequenceStart :: rest => do
        let (items, rest) ← flowItems? handles true rest
        return (.sequence p.anchor tag items, rest)
      | .flowMappingStart :: rest => do
        let (pairs, rest) ← flowPairs? handles true rest
        return (.mapping p.anchor tag pairs, rest)
      | t :: rest' =>
        if t = .blockEntry ∧ unindented then do
          let (items, rest) ← unindentedItems? handles (t :: rest')
          return (.sequence p.anchor tag items, rest)
        else if t = .blockSequenceStart ∧ inBlock then do
          let (items, rest) ← blockItems? handles rest'
          return (.sequence p.anchor tag items, rest)
        else if t = .blockMappingStart ∧ inBlock then do
          let (pairs, rest) ← blockPairs? handles rest'
          return (.mapping p.anchor tag pairs, rest)
        -- Properties that nothing comes after are those of an empty node.
        else if p.isSome then some (.scalar p.anchor tag .plain "", t :: rest')
        else none
      | [] => if p.isSome then some (.scalar p.anchor tag .plain "", []) else none
termination_by (ts.length, 1)
decreasing_by all_goals (subst_vars; simp_all [Prod.lex_def] <;> omega)

/-- The node that is due, or the empty one if it is missing. -/
def readOr? (handles : Handles) (inBlock unindented : Bool) (ends ts : List Token) :
    Option (Node × List Token) :=
  if isMissing ends ts then some (empty, ts) else read? handles inBlock unindented ts
termination_by (ts.length, 2)
decreasing_by all_goals simp_all [Prod.lex_def]

/-- The entries of a block sequence that is not indented. -/
def unindentedItems? (handles : Handles) (ts : List Token) : Option (List Node × List Token) :=
  match ts with
  | .blockEntry :: rest => do
    let (n, rest') ← readOr? handles true false [.blockEntry, .key, .value, .blockEnd] rest
    if rest'.length ≤ rest.length then do
      let (ns, rest) ← unindentedItems? handles rest'
      return (n :: ns, rest)
    else none
  | ts => some ([], ts)
termination_by (ts.length, 0)
decreasing_by all_goals (simp only [Prod.lex_def, List.length_cons]; omega)

/-- The entries of a block sequence, up to its end. -/
def blockItems? (handles : Handles) (ts : List Token) : Option (List Node × List Token) :=
  match ts with
  | .blockEntry :: rest => do
    let (n, rest') ← readOr? handles true false [.blockEntry, .blockEnd] rest
    if rest'.length ≤ rest.length then do
      let (ns, rest) ← blockItems? handles rest'
      return (n :: ns, rest)
    else none
  | .blockEnd :: rest => some ([], rest)
  | _ => none
termination_by (ts.length, 0)
decreasing_by all_goals (simp only [Prod.lex_def, List.length_cons]; omega)

/-- The pairs of a block mapping, up to its end. -/
def blockPairs? (handles : Handles) (ts : List Token) : Option (List (Node × Node) × List Token) :=
  match ts with
  | .key :: rest => do
    let (k, rest') ← readOr? handles true true [.key, .value, .blockEnd] rest
    if rest'.length ≤ rest.length then do
      let (v, rest'') ← value? handles true [.key, .value, .blockEnd] rest'
      if rest''.length ≤ rest.length then do
        let (ps, rest) ← blockPairs? handles rest''
        return ((k, v) :: ps, rest)
      else none
    else none
  | .blockEnd :: rest => some ([], rest)
  | _ => none
termination_by (ts.length, 0)
decreasing_by all_goals (simp only [Prod.lex_def, List.length_cons]; omega)

/-- The value of a pair after its key, empty if there is no colon. -/
def value? (handles : Handles) (inBlock : Bool) (ends ts : List Token) :
    Option (Node × List Token) :=
  match ts with
  | .value :: rest => readOr? handles inBlock inBlock ends rest
  | ts => some (empty, ts)
termination_by (ts.length, 0)
decreasing_by all_goals simp_all [Prod.lex_def]

/-- An item of a flow sequence, which may be a single pair. -/
def flowItem? (handles : Handles) (ts : List Token) : Option (Node × List Token) :=
  match ts with
  | .key :: rest => do
    let (k, rest') ←
      -- The token that shows a key to be missing goes with it.
      if isMissing [.value, .flowEntry, .flowSequenceEnd] rest then some (empty, rest.drop 1)
      else read? handles false false rest
    if rest'.length ≤ rest.length then do
      let (v, rest) ← value? handles false [.flowEntry, .flowSequenceEnd] rest'
      return (.mapping none none [(k, v)], rest)
    else none
  | ts => read? handles false false ts
termination_by (ts.length, 2)
decreasing_by all_goals (simp only [Prod.lex_def, List.length_cons, true_and]; omega)

/-- The items of a flow sequence, up to its end, the first of them without a comma before it. -/
def flowItems? (handles : Handles) (isFirst : Bool) (ts : List Token) :
    Option (List Node × List Token) :=
  match ts with
  | .flowSequenceEnd :: rest => some ([], rest)
  | .flowEntry :: .flowSequenceEnd :: rest => if isFirst then none else some ([], rest)
  | ts =>
    match _h : separated? isFirst ts with
    | none => none
    | some items => do
      have := length_separated? _h
      let (n, rest) ← flowItem? handles items
      if rest.length < ts.length then do
        let (ns, rest) ← flowItems? handles false rest
        return (n :: ns, rest)
      else none
termination_by (ts.length, 3)
decreasing_by all_goals (simp_all [Prod.lex_def] <;> omega)

/-- A pair of a flow mapping. -/
def flowPair? (handles : Handles) (ts : List Token) : Option ((Node × Node) × List Token) :=
  match ts with
  | .key :: rest => do
    let (k, rest') ← readOr? handles false false [.value, .flowEntry, .flowMappingEnd] rest
    if rest'.length ≤ rest.length then do
      let (v, rest) ← value? handles false [.flowEntry, .flowMappingEnd] rest'
      return ((k, v), rest)
    else none
  | ts => do
    let (k, rest) ← read? handles false false ts
    return ((k, empty), rest)
termination_by (ts.length, 2)
decreasing_by all_goals (simp only [Prod.lex_def, List.length_cons, true_and]; omega)

/-- The pairs of a flow mapping, up to its end, the first of them without a comma before it. -/
def flowPairs? (handles : Handles) (isFirst : Bool) (ts : List Token) :
    Option (List (Node × Node) × List Token) :=
  match ts with
  | .flowMappingEnd :: rest => some ([], rest)
  | .flowEntry :: .flowMappingEnd :: rest => if isFirst then none else some ([], rest)
  | ts =>
    match _h : separated? isFirst ts with
    | none => none
    | some pairs => do
      have := length_separated? _h
      let (p, rest) ← flowPair? handles pairs
      if rest.length < ts.length then do
        let (ps, rest) ← flowPairs? handles false rest
        return (p :: ps, rest)
      else none
termination_by (ts.length, 3)
decreasing_by all_goals (simp_all [Prod.lex_def] <;> omega)

end

end Node

end ClientSynth.Yaml

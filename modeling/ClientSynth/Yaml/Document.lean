import ClientSynth.Yaml.Node

/-!
# `ClientSynth.Yaml.Document` — a text of one document

A text is read as one document: directives, a node, and nothing after it but end markers. Aliases
stay in the tree, since a node may mention itself; whoever walks the tree follows them with `follow`.
-/

set_option autoImplicit false

namespace ClientSynth.Yaml

namespace Node

mutual

/-- The nodes with a slot, in the order in which they start. -/
def slots : Node → List (Nat × Node)
  | n@(.scalar (some slot) _ _ _) => [(slot, n)]
  | n@(.sequence anchor _ items) =>
    match anchor with
    | some slot => (slot, n) :: slotsOfItems items
    | none => slotsOfItems items
  | n@(.mapping anchor _ pairs) =>
    match anchor with
    | some slot => (slot, n) :: slotsOfPairs pairs
    | none => slotsOfPairs pairs
  | _ => []

def slotsOfItems : List Node → List (Nat × Node)
  | [] => []
  | n :: ns => slots n ++ slotsOfItems ns

def slotsOfPairs : List (Node × Node) → List (Nat × Node)
  | [] => []
  | (k, v) :: ps => slots k ++ slots v ++ slotsOfPairs ps

end

end Node

/-- A document: its tree, and the nodes that aliases may mean. -/
structure Document where
  root : Node
  slots : List (Nat × Node)

namespace Document

/-- The node that is meant: for an alias the last node that took the slot. -/
def follow (d : Document) : Node → Node
  | .alias slot =>
    match d.slots.reverse.lookup slot with
    | some n => n
    | none => Node.empty
  | n => n

/-- The directives before a document: whether there are any, the handles they declare, and the
tokens after them. Neither the version nor a handle may be given twice, and only the versions 1.1 and
1.2 are known. -/
def directives? (hasVersion : Bool) (declared : Node.Handles) :
    List Token → Option (Bool × Node.Handles × List Token)
  | .versionDirective major minor :: rest =>
    if hasVersion ∨ major ≠ 1 ∨ (minor ≠ 1 ∧ minor ≠ 2) then none
    else directives? true declared rest
  | .tagDirective handle stem :: rest =>
    if (declared.lookup handle).isSome then none
    else directives? hasVersion ((handle, stem) :: declared) rest
  | rest => some (hasVersion || !declared.isEmpty, declared, rest)

/-- Whether a token ends a document or starts another. -/
def isOutside : Token → Bool
  | .versionDirective _ _ | .tagDirective _ _ | .documentStart | .documentEnd => true
  | _ => false

/-- The node of a document after its start marker, which may be missing. -/
def content? (handles : Node.Handles) (ts : List Token) : Option (Node × List Token) :=
  match ts with
  | [] => some (Node.empty, [])
  | t :: rest =>
    if isOutside t then some (Node.empty, t :: rest) else Node.read? handles true false (t :: rest)

/-- The node of a text of one document. Directives need a start marker after them. -/
def node? (ts : List Token) : Option Node := do
  let (any, declared, rest) ← directives? false [] ts
  let handles := declared ++ Node.standardHandles
  let (n, rest) ←
    match rest with
    | .documentStart :: rest => content? handles rest
    | rest => if any then none else Node.read? handles true false rest
  if rest.all (· == .documentEnd) then some n else none

/-- The document of a text. -/
def ofChars? (cs : List Char) : Option Document := do
  let n ← node? (← Token.ofCells? (← Cell.ofChars? cs))
  return ⟨n, n.slots⟩

end Document

end ClientSynth.Yaml

import ClientSynth.Contract.Basic
import ClientSynth.Yaml.Document

/-!
# `ClientSynth.Contract.YamlDocument` — contracts in YAML

The same records as in JSON, with the freedoms of YAML: a text field takes any scalar as it is
written, an optional field takes nothing for `null`, a list takes nothing for no items, and an alias
stands for its node everywhere. Records are mappings, whose unknown keys are passed over.

Why a document is no contract is not told.
-/

set_option autoImplicit false

namespace ClientSynth

namespace YamlDocument

open Yaml (Document Node Style)

/-! ## Simple values -/

/-- The texts that stand for nothing. -/
def isNull (text : String) : Bool :=
  text == "null" || text == "Null" || text == "NULL" || text == "~"

def nullTag : String := "tag:yaml.org,2002:null"

def intTag : String := "tag:yaml.org,2002:int"

/-- The text of a scalar. -/
def text? (d : Document) (n : Node) : Option String :=
  match d.follow n with
  | .scalar _ _ _ text => some text
  | _ => none

/-- The value of a digit in a base up to 16. -/
def digit? (base : Nat) (c : Char) : Option Nat :=
  match Yaml.hexValue? c with
  | some n => if n < base then some n else none
  | none => none

/-- The number that digits of a base write; there must be one at least. -/
def digits? (base : Nat) (cs : List Char) : Option Nat :=
  if cs.isEmpty then none else cs.foldlM (fun n c => (digit? base c).map (n * base + ·)) 0

/-- The number that a text writes: decimal without a leading zero, or with a base by letter, after a
plus sign or without. -/
def number? (text : String) : Option Nat :=
  let cs := match text.toList with
    | '+' :: cs => cs
    | cs => cs
  match cs with
  | '0' :: 'x' :: ds => digits? 16 ds
  | '0' :: 'o' :: ds => digits? 8 ds
  | '0' :: 'b' :: ds => digits? 2 ds
  | '0' :: _ :: _ => none
  | ds => digits? 10 ds

/-- Whether a scalar may be a number: it is plain, or a literal block with the tag of numbers. -/
def mayBeNumber (tag : Option String) : Style → Bool
  | .plain => true
  | .literal => tag == some intTag
  | _ => false

/-- A whole number of 32 bits. -/
def word32? (d : Document) (n : Node) : Option UInt32 := do
  match d.follow n with
  | .scalar _ tag style text =>
    let value ← number? text
    if mayBeNumber tag style ∧ value < UInt32.size then some value.toUInt32 else none
  | _ => none

/-- A value that may be missing: a plain scalar that is empty or stands for nothing, unless a tag
says otherwise. -/
def optional? {α : Type} (d : Document) (decode : Node → Option α) (n : Node) :
    Option (Option α) :=
  match d.follow n with
  | .scalar _ tag .plain text =>
    match tag with
    | none => if text.isEmpty || isNull text then some none else (decode n).map some
    | some tag =>
      if tag = nullTag then (if isNull text then some none else none) else (decode n).map some
  | _ => (decode n).map some

/-- The items of a sequence; nothing is no items. -/
def list? {α : Type} (d : Document) (decode : Node → Option α) (n : Node) : Option (List α) :=
  match d.follow n with
  | .sequence _ _ items => items.mapM decode
  | .scalar _ _ .plain "" => some []
  | _ => none

/-! ## Fields -/

/-- The pairs of a mapping with the texts of their keys. -/
def pairs? (d : Document) (n : Node) : Option (List (String × Node)) :=
  match d.follow n with
  | .mapping _ _ pairs => pairs.mapM fun (k, v) => (text? d k).map (·, v)
  | _ => none

/-- The value of a key, if the mapping has it; an error if it has it twice. -/
def field? {α : Type} (pairs : List (String × Node)) (key : String) (decode : Node → Option α) :
    Option (Option α) :=
  match pairs.filter (·.1 == key) with
  | [] => some none
  | [(_, v)] => (decode v).map some
  | _ => none

/-- The value of a key that the mapping must have. -/
def required? {α : Type} (pairs : List (String × Node)) (key : String)
    (decode : Node → Option α) : Option α := do
  ← field? pairs key decode

/-! ## The records of a contract -/

def param? (d : Document) (n : Node) : Option Param := do
  let pairs ← pairs? d n
  return ⟨← required? pairs "name" (text? d), ← required? pairs "type" (text? d)⟩

/-- A verb: its word as a scalar, or as the tag of a scalar that stands for nothing. -/
def verb? (d : Document) (n : Node) : Option Verb :=
  match d.follow n with
  | .scalar _ tag style text =>
    match tag.map String.toList with
    | some ('!' :: word) =>
      if style = .plain ∧ (text.isEmpty ∨ isNull text) then Verb.ofWord? (String.ofList word)
      else none
    | _ => Verb.ofWord? text
  | _ => none

def route? (d : Document) (n : Node) : Option Route := do
  let pairs ← pairs? d n
  return ⟨← required? pairs "path" (text? d), ← required? pairs "method" (verb? d)⟩

def method? (d : Document) (n : Node) : Option Method := do
  let pairs ← pairs? d n
  return {
    name := ← required? pairs "name" (text? d)
    params := (← field? pairs "params" (list? d (param? d))).getD []
    returns := (← field? pairs "returns" (optional? d (text? d))).join
    route := (← field? pairs "route" (optional? d (route? d))).join }

def contract? (d : Document) (n : Node) : Option Contract := do
  let pairs ← pairs? d n
  return {
    version := (← field? pairs "version" (word32? d)).getD Contract.supportedVersion
    name := ← required? pairs "name" (text? d)
    description := (← field? pairs "description" (optional? d (text? d))).join
    methods := (← field? pairs "methods" (list? d (method? d))).getD [] }

end YamlDocument

/-- The contract that a YAML text denotes. -/
def Contract.ofYamlText? (s : String) : Option Contract := do
  let d ← Yaml.Document.ofChars? s.toList
  YamlDocument.contract? d d.root

end ClientSynth

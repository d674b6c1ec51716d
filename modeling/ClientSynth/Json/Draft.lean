import ClientSynth.Json.Token

/-!
# `ClientSynth.Json.Draft` — JSON read as far as it is well formed

A `Draft` is the tree of a JSON text up to its first malformed place: an array or object that the
text does not finish is kept with what it has, and with the token that broke it off. Whoever wants a typed
value walks the draft from left to right and reports the first problem met, be it a value of the
wrong type or the place where the text breaks off; whoever wants a `Json` takes only drafts without
such places (`toJson?`).

`read` is a machine over tokens with the stack of open containers: each token is one step, so it
ends with the tokens.
-/

set_option autoImplicit false

namespace ClientSynth.Json

/-- How an array or object of a text ends: as it should, or at a token that does not fit, or with
the text. -/
inductive Ending where
  | closed
  | broken (found : Option Token)
  deriving DecidableEq, Inhabited

/-- A JSON value, read as far as its text is well formed. A number out of range and a string with
an unpaired surrogate have no value. -/
inductive Draft where
  | null
  | bool (b : Bool)
  | number (n : Option Number)
  | string (s : Option String)
  | array (items : List Draft) (ending : Ending)
  | object (members : List (Option String × Draft)) (ending : Ending)
  | broken
  deriving Inhabited

namespace Draft

/-! ## Reading tokens -/

/-- A container whose end has not been read, with what it holds so far, the last first. An object
waits for the value of a key. -/
inductive Open where
  | array (items : List Draft)
  | object (members : List (Option String × Draft)) (key : Option String)

/-- The container with one more value and an ending. -/
def Open.add (v : Draft) (ending : Ending) : Open → Draft
  | .array items => .array (v :: items).reverse ending
  | .object members key => .object ((key, v) :: members).reverse ending

/-- What may come next. -/
inductive Expect where
  | value
  /-- A value, or the end of the array that was just opened. -/
  | valueOrEnd
  /-- A key, after the comma in an object with these members, the last first. -/
  | key (members : List (Option String × Draft))
  /-- A key, or the end of the object that was just opened. -/
  | keyOrEnd
  | colon
  /-- A comma or the end of the container around a value that was just read. -/
  | next (v : Draft)

/-- The draft of the outermost container, when the text breaks off with `v` read innermost. -/
def breakOff (found : Option Token) (v : Draft) (stack : List Open) : Draft :=
  stack.foldl (fun v o => o.add v (.broken found)) v

/-- The draft when the text breaks off where `expect` was due. -/
def breakAt (found : Option Token) : Expect → List Open → Draft
  -- An array keeps the items before the break, an object the members.
  | .value, .array items :: stack =>
    breakOff found (.array items.reverse (.broken found)) stack
  | .valueOrEnd, .array _ :: stack => breakOff found (.array [] (.broken found)) stack
  | .value, stack | .valueOrEnd, stack | .colon, stack => breakOff found .broken stack
  | .key members, stack => breakOff found (.object members.reverse (.broken found)) stack
  | .keyOrEnd, stack => breakOff found (.object [] (.broken found)) stack
  | .next v, stack => breakOff found v stack

/-- One token, read where `expect` is due inside the containers of `stack`: the next state, or
nothing where the token does not fit. A value that is complete waits as `Expect.next`. -/
def step : Expect → List Open → Token → Option (Expect × List Open)
  | .valueOrEnd, .array _ :: stack, .closeBracket => some (.next (.array [] .closed), stack)
  | .value, stack, t | .valueOrEnd, stack, t =>
    match t with
    | .null => some (.next .null, stack)
    | .bool b => some (.next (.bool b), stack)
    | .number n => some (.next (.number n), stack)
    | .string s => some (.next (.string s), stack)
    | .openBracket => some (.valueOrEnd, .array [] :: stack)
    | .openBrace => some (.keyOrEnd, stack)
    | _ => none
  | .keyOrEnd, stack, .string k => some (.colon, .object [] k :: stack)
  | .keyOrEnd, stack, .closeBrace => some (.next (.object [] .closed), stack)
  | .key members, stack, .string k => some (.colon, .object members k :: stack)
  | .colon, stack, .colon => some (.value, stack)
  | .next v, .array items :: stack, .comma => some (.value, .array (v :: items) :: stack)
  | .next v, .array items :: stack, .closeBracket =>
    some (.next (.array (v :: items).reverse .closed), stack)
  | .next v, .object members k :: stack, .comma => some (.key ((k, v) :: members), stack)
  | .next v, .object members k :: stack, .closeBrace =>
    some (.next (.object ((k, v) :: members).reverse .closed), stack)
  | _, _, _ => none

/-- Reads tokens up to the end of the value or the first that does not fit, and gives the draft
and the tokens from there on. -/
def read : Expect → List Open → List Token → Draft × List Token
  | .next v, [], ts => (v, ts)
  | expect, stack, [] => (breakAt none expect stack, [])
  | expect, stack, t :: ts =>
    match step expect stack t with
    | some (expect, stack) => read expect stack ts
    | none => (breakAt (some t) expect stack, t :: ts)

/-- The draft of the value at the start of a text, and whether nothing follows it. -/
def ofChars (cs : List Char) : Draft × Bool :=
  match read .value [] (Token.ofChars cs) with
  | (d, rest) => (d, rest.isEmpty)

/-! ## Complete drafts -/

mutual

/-- How deep containers are nested in a draft. -/
def depth : Draft → Nat
  | .array items _ => depthItems items + 1
  | .object members _ => depthMembers members + 1
  | _ => 0

def depthItems : List Draft → Nat
  | [] => 0
  | d :: ds => max (depth d) (depthItems ds)

def depthMembers : List (Option String × Draft) → Nat
  | [] => 0
  | (_, d) :: ms => max (depth d) (depthMembers ms)

end

mutual

/-- The value of a draft that breaks off nowhere and in which everything has a value. Of members
with one key the last counts. -/
def toJson? : Draft → Option Json
  | .null => some .null
  | .bool b => some (.bool b)
  | .number n => n.map .number
  | .string s => s.map .string
  | .array items .closed => (toItems? items).map .array
  | .object members .closed => (toMembers? members).map ofMembers
  | .array _ (.broken _) | .object _ (.broken _) | .broken => none

def toItems? : List Draft → Option (List Json)
  | [] => some []
  | d :: ds => do return (← toJson? d) :: (← toItems? ds)

def toMembers? : List (Option String × Draft) → Option (List (String × Json))
  | [] => some []
  | (k, d) :: ms => do return (← k, ← toJson? d) :: (← toMembers? ms)

end

mutual

/-- Whether a draft is well formed throughout, as a reader finds that skips it: things without a
value are no hindrance. -/
def isWhole : Draft → Bool
  | .array items ending => ending == .closed && areWhole items
  | .object members ending => ending == .closed && areWholeMembers members
  | .broken => false
  | _ => true

def areWhole : List Draft → Bool
  | [] => true
  | d :: ds => isWhole d && areWhole ds

def areWholeMembers : List (Option String × Draft) → Bool
  | [] => true
  | (_, d) :: ms => isWhole d && areWholeMembers ms

end

end Draft

/-- How deep arrays and objects may be nested in a text that is read as a value. -/
def maxDepth : Nat := 127

/-- The value of a JSON text, if it is one. -/
def ofChars? (cs : List Char) : Option Json :=
  match Draft.ofChars cs with
  | (d, true) => if d.depth ≤ maxDepth then d.toJson? else none
  | (_, false) => none

def ofString? (s : String) : Option Json :=
  ofChars? s.toList

end ClientSynth.Json

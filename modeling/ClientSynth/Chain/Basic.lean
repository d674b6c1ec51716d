import ClientSynth.Chain.Frame

/-!
# `ClientSynth.Chain.Basic` — chains and what makes them sound

A chain is the list of frames of one method with the parameters they may read. It is sound when every
input is a parameter that exists or an earlier frame with an output, and the last frame, and no other,
returns. `issues` finds everything that is not so.
-/

set_option autoImplicit false

namespace ClientSynth

/-! ## Issues -/

/-- What can be wrong with a list of frames. The frame where it shows comes first. -/
inductive Issue where
  /-- A frame reads a parameter that the method does not have. -/
  | argumentOutOfBounds (frame : Nat) (kind : FrameKind) (argument : UInt16) (count : Nat)
  /-- A frame reads its own output. -/
  | selfReference (frame : Nat) (kind : FrameKind)
  /-- A frame reads the output of a later frame. -/
  | forwardReference (frame : Nat) (kind : FrameKind) (target : UInt16)
  /-- A frame reads the output of an earlier frame that has none. -/
  | missingOutput (frame : Nat) (kind : FrameKind) (target : UInt16) (targetKind : FrameKind)
  | missingReturn (frame : Nat) (kind : FrameKind)
  | earlyReturn (frame : Nat)
  | noFrames
  deriving DecidableEq, Repr

inductive IssueKind where
  | forwardReference | selfReference | argumentOutOfBounds | missingOutput | misplacedReturn
  deriving DecidableEq, Repr

namespace Issue

def frame : Issue → Nat
  | argumentOutOfBounds i _ _ _ | selfReference i _ | forwardReference i _ _ |
    missingOutput i _ _ _ | missingReturn i _ | earlyReturn i => i
  | noFrames => 0

def kind : Issue → IssueKind
  | argumentOutOfBounds _ _ _ _ => .argumentOutOfBounds
  | selfReference _ _ => .selfReference
  | forwardReference _ _ _ => .forwardReference
  | missingOutput _ _ _ _ => .missingOutput
  | missingReturn _ _ | earlyReturn _ | noFrames => .misplacedReturn

/-- How a message names a frame. -/
def frameLabel (i : Nat) (kind : FrameKind) : String :=
  "frame " ++ toString i ++ " (" ++ kind.word ++ ")"

/-- How a message names a reference to a frame. -/
def targetLabel (target : UInt16) : String :=
  "Frame(" ++ toString target.toNat ++ ")"

def message : Issue → String
  | argumentOutOfBounds i kind argument count =>
    frameLabel i kind ++ " references Argument(" ++ toString argument.toNat ++
      ") but the method has " ++ toString count ++ " parameter(s)"
  | selfReference i kind => frameLabel i kind ++ " references its own output"
  | forwardReference i kind target =>
    frameLabel i kind ++ " references " ++ targetLabel target ++ " which has not run yet"
  | missingOutput i kind target targetKind =>
    frameLabel i kind ++ " consumes " ++ targetLabel target ++ " (" ++ targetKind.word ++
      ") which produces no value"
  | missingReturn _ kind => "chain ends with " ++ kind.word ++ " instead of return"
  | earlyReturn i => "return at frame " ++ toString i ++ " is not the last frame"
  | noFrames => "chain has no frames"

/-- What is wrong with one input of the frame at `i`, given the frames before it. -/
def ofInput (count : Nat) (before : List Frame) (i : Nat) (kind : FrameKind) :
    Ref → Option Issue
  | .argument a => if a.toNat < count then none else some (argumentOutOfBounds i kind a count)
  | .frame j =>
    if j.toNat = i then some (selfReference i kind)
    else if i < j.toNat then some (forwardReference i kind j)
    else
      match before[j.toNat]? with
      | some f => if f.output.isNone then some (missingOutput i kind j f.kind) else none
      | none => none

/-- What is wrong with the place of the frame at `i`. -/
def ofPlace (i : Nat) (kind : FrameKind) (isLast : Bool) : List Issue :=
  if (kind == .returnValue) == isLast then []
  else if isLast then [missingReturn i kind]
  else [earlyReturn i]

/-- What is wrong with the frames after `before`. -/
def ofFrames (count : Nat) (before : List Frame) : List Frame → List Issue
  | [] => []
  | f :: rest =>
    f.inputs.filterMap (ofInput count before before.length f.kind) ++
    ofPlace before.length f.kind rest.isEmpty ++
    ofFrames count (before ++ [f]) rest

/-- Everything that is wrong with some frames that read `count` parameters. -/
def all (count : Nat) (frames : List Frame) : List Issue :=
  if frames.isEmpty then [noFrames] else ofFrames count [] frames

end Issue

/-! ## Chains -/

/-- The frames of a method, with the parameters they read. -/
structure Chain where
  method : String
  arguments : List Variable
  frames : List Frame
  deriving DecidableEq, Inhabited

namespace Chain

def issues (c : Chain) : List Issue :=
  Issue.all c.arguments.length c.frames

/-- Whether nothing is wrong with a chain. -/
def IsSound (c : Chain) : Prop := c.issues = []

instance (c : Chain) : Decidable c.IsSound := inferInstanceAs (Decidable (_ = _))

def kinds (c : Chain) : List FrameKind := c.frames.map (·.kind)

def contains (c : Chain) (kind : FrameKind) : Bool := c.kinds.contains kind

/-- The type that a frame reads a response as. -/
def payloadOf? (f : Frame) : Option TypeExpr :=
  match f.op with
  | .deserializeResponse type => some type
  | _ => none

/-- The type that the method returns, if it returns something. -/
def returnType? (c : Chain) : Option TypeExpr :=
  c.frames.findSome? payloadOf?

/-- The variable that a reference stands for. -/
def lookup? (c : Chain) : Ref → Option Variable
  | .argument i => c.arguments[i.toNat]?
  | .frame i => c.frames[i.toNat]? >>= (·.output)

/-- The name of what a reference stands for. -/
def nameOf? (c : Chain) (r : Ref) : Option String :=
  (c.lookup? r).map (·.name)

/-- The lines of source of the method body. -/
def render (c : Chain) : List String :=
  c.frames.map fun f => f.render fun r => (c.nameOf? r).getD Frame.noName

end Chain

end ClientSynth

import ClientSynth.Contract.Load

/-!
# `ClientSynth.CommandLine.Directory` — a working directory in memory

Files by their path from the working directory. A directory exists where a file is below it, and paths
may go through `.`, which changes nothing.
-/

set_option autoImplicit false

namespace ClientSynth

/-- The files below the working directory. -/
structure Directory where
  files : List (String × String) := []
  deriving DecidableEq

namespace Directory

/-- The parts of a path that count. -/
def parts (path : String) : List (List Char) :=
  (Text.splitAt '/' path.toList).filter fun p => p ≠ [] ∧ p ≠ ['.']

/-- The text of the file at a path. -/
def text? (d : Directory) (path : String) : Option String :=
  (d.files.find? fun f => parts f.1 == parts path).map (·.2)

/-- Whether there is a directory at a path. -/
def isDirectory (d : Directory) (path : String) : Bool :=
  (parts path).isEmpty ||
    d.files.any fun f => (parts path).isPrefixOf (parts f.1) && parts path != parts f.1

/-- The bytes of the file at a path. -/
def read (d : Directory) (path : String) : Except FileProblem ByteArray :=
  match d.text? path with
  | some text => .ok text.toUTF8
  | none => .error (if d.isDirectory path && path ≠ "" then .isDirectory else .missing)

/-- The directory with a text in the file at a path. -/
def write (d : Directory) (path text : String) : Except FileProblem Directory :=
  if d.isDirectory path then .error .isDirectory
  else if (d.text? path).isSome then
    .ok ⟨d.files.map fun f => if parts f.1 == parts path then (f.1, text) else f⟩
  else if d.isDirectory (String.ofList (Text.joinWith ['/'] (parts path).dropLast)) then
    .ok ⟨d.files ++ [(path, text)]⟩
  else .error .missing

end Directory

end ClientSynth

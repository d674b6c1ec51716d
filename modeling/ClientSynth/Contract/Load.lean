import ClientSynth.Contract.Validation
import ClientSynth.Contract.YamlDocument
import ClientSynth.Remarks

/-!
# `ClientSynth.Contract.Load` — contracts from texts and files

A contract is accepted when its text can be read and its shape is valid. Files are told apart by
their extension: `yaml` and `yml`, in any case, are YAML, everything else is JSON.

An error is a chain of messages, the outermost first, as reports show it. The innermost one ends with
what the reader of the text remarks.
-/

set_option autoImplicit false

namespace ClientSynth

/-- Why the text of a file cannot be had. -/
inductive FileProblem where
  | missing
  | isDirectory
  | notText
  | other (message : String)
  deriving DecidableEq, Repr

def FileProblem.message : FileProblem → String
  | missing => "No such file or directory (os error 2)"
  | isDirectory => "Is a directory (os error 21)"
  | notText => "stream did not contain valid UTF-8"
  | other message => message

/-- Why a contract is not accepted. -/
inductive LoadError where
  | unreadable (file : String) (problem : FileProblem)
  | json (file : Option String) (error : DocumentError) (remark : String)
  | yaml (file : Option String) (remark : String)
  | invalid (violations : List Violation)
  deriving DecidableEq, Repr

namespace LoadError

/-- The end of a message that names a file. -/
def inFile : Option String → String
  | none => ""
  | some file => " in " ++ file

/-- The error in words, the outermost message first. -/
def chain : LoadError → List String
  | unreadable file problem => ["Failed to read contract " ++ file, problem.message]
  | json file error remark => ["Invalid JSON contract" ++ inFile file, error.message ++ remark]
  | yaml file remark => ["Invalid YAML contract" ++ inFile file, remark]
  | invalid violations => [Violation.report violations]

end LoadError

namespace Contract

/-- A contract that is accepted only if its shape is valid. -/
def accept (c : Contract) : Except LoadError Contract :=
  if c.violations = [] then .ok c else .error (.invalid c.violations)

/-- The contract of a JSON text, which may come from a file. -/
def fromJson (remarks : JsonRemarks) (text : String) (file : Option String) :
    Except LoadError Contract :=
  match ofJsonText text with
  | .ok c => c.accept
  | .error e => .error (.json file e (remarks.remark text e))

/-- The contract of a YAML text, which may come from a file. -/
def fromYaml (remark : String → String) (text : String) (file : Option String) :
    Except LoadError Contract :=
  match ofYamlText? text with
  | some c => c.accept
  | none => .error (.yaml file (remark text))

/-- What follows the last dot of a file name, unless the dot is its first character. -/
def fileExtension (file : String) : String :=
  let name := (Text.splitAt '/' file.toList).getLastD []
  let tail := name.reverse.takeWhile (· ≠ '.')
  if tail.length + 1 < name.length then String.ofList tail.reverse else ""

/-- Whether a file is read as YAML. -/
def isYamlFile (file : String) : Bool :=
  let ext := (fileExtension file).toLower
  ext == "yaml" || ext == "yml"

/-- The contract in a file of these bytes, or the reason why there are none. -/
def fromFile (remarks : Remarks) (file : String) (bytes : Except FileProblem ByteArray) :
    Except LoadError Contract :=
  match bytes with
  | .error problem => .error (.unreadable file problem)
  | .ok bytes =>
    match String.fromUTF8? bytes with
    | none => .error (.unreadable file .notText)
    | some text =>
      if isYamlFile file then fromYaml remarks.yaml text (some file)
      else fromJson remarks.contract text (some file)

end Contract

end ClientSynth

import ClientSynth.CommandLine.Arguments
import ClientSynth.CommandLine.Directory
import ClientSynth.CommandLine.Report
import ClientSynth.Invocation.Run
import ClientSynth.Transport.Network
import ClientSynth.Transport.Registry

/-!
# `ClientSynth.CommandLine.Run` — what commands do

A command is a `Task`: it reads a file, perhaps writes one, and ends in a report. A task says what is
to be read and written and how it goes on, so the same command runs on a disk and on a `Directory`.
What readers of texts remark on them (`Remarks`) goes into the reports of errors.
-/

set_option autoImplicit false

namespace ClientSynth.CommandLine

/-- Something that is done with files. -/
inductive Task where
  | done (report : Report)
  /-- It reads a file and goes on with its bytes, or without. -/
  | read (file : String) (next : Except FileProblem ByteArray → Task)
  /-- It writes a file and goes on, with the problem if it cannot be written. -/
  | write (file text : String) (next : Option FileProblem → Task)

namespace Task

/-- The report of a task and the files that it leaves. -/
def runIn (d : Directory) : Task → Report × Directory
  | done report => (report, d)
  | read file next => (next (d.read file)).runIn d
  | write file text next =>
    match d.write file text with
    | .ok d => (next none).runIn d
    | .error problem => (next (some problem)).runIn d

end Task

/-! ## Commands -/

/-- The end of a task with an error, given by its chain of messages. -/
def failed (asJson : Bool) (chain : List String) : Task :=
  .done (failure asJson (chain.headD "") chain.tail)

/-- Reads and synthesizes the contract in a file, and goes on with the implementation. -/
def withImplementation (remarks : Remarks) (asJson : Bool) (file : String)
    (next : Implementation → Task) : Task :=
  .read file fun bytes =>
    match Contract.fromFile remarks file bytes with
    | .error e => failed asJson e.chain
    | .ok c =>
      match c.synthesize with
      | .error e => failed asJson ["Failed to synthesize " ++ file, e.message]
      | .ok i => next i

/-- Prints the source of an implementation, or writes it to a file. -/
def emit (asJson : Bool) (out : Option String) (i : Implementation) : Task :=
  match out with
  | none => .done { stdout := emitText asJson i none }
  | some file =>
    .write file i.source fun
      | some problem => failed asJson ["Failed to write " ++ file, problem.message]
      | none => .done { stdout := emitText asJson i out }

/-- The arguments of a call in a text, or what is wrong with it. A text that begins like another value
is no array, whatever follows. -/
def arguments (text : String) : Except DocumentError (List Json) :=
  match Json.ofString? text, (Json.Draft.ofChars text.toList).1 with
  | some (.array items), _ => .ok items
  | _, .array _ _ => .error .malformed
  | _, d => .error (Document.mismatch "a sequence" d)

/-- Calls a method of an implementation. -/
def call (remarks : Remarks) (asJson : Bool) (config : ClientConfig) (method args : String)
    (i : Implementation) : Task :=
  match arguments args with
  | .error e =>
    failed asJson ["--args must be a JSON array", e.message ++ remarks.arguments.remark args e]
  | .ok values =>
    let client : Client Unit :=
      { implementation := i
        resolve := (Registry.ofFallback ()).resolve?
        fault := remarks.body
        limit := config.callTimeout }
    match (client.invoke (fun _ => Network.answer config.transport) method values).result with
    | .error e => failed asJson ["Call to `" ++ method ++ "` failed", e.message]
    | .ok v => .done { stdout := callText asJson i.interface method v }

/-- The settings of a client, from the environment and the command line. -/
def clientConfig (env : Environment) (baseUrl : Option String) : ClientConfig :=
  match baseUrl with
  | some url => (ClientConfig.ofEnvironment env).withBaseUrl url
  | none => .ofEnvironment env

/-- Runs a command with the options that were given. -/
def runCommand (remarks : Remarks) (env : Environment) (c : Command) (g : Given) : Task :=
  let asJson := g.has jsonSwitch
  let verbose := g.has verboseSwitch || env.isOn "REST_SYNTH_VERBOSE"
  let value (o : OptionSpec) : String := (g.value? o).getD ""
  withImplementation remarks asJson (value contractOption) fun i =>
    match c with
    | .emit => emit asJson (g.value? outOption) i
    | .inspect => .done { stdout := inspectText asJson verbose i }
    | .call =>
      call remarks asJson (clientConfig env (g.value? baseUrlOption)) (value methodOption)
        (value argsOption) i

/-- What a command line does. -/
def task (remarks : Remarks) (env : Environment) (words : List String) : Task :=
  match read words with
  | .run c g => runCommand remarks env c g
  | .help topic => .done { stdout := helpText topic }
  | .version => .done { stdout := versionText }
  | .usage => .done { exit := 2, stderr := helpText none }

end ClientSynth.CommandLine

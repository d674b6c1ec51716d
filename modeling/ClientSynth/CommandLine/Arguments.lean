/-!
# `ClientSynth.CommandLine.Arguments` — reading the command line

The program has commands, and each has options: switches, and options with a value that follows them,
either as the next word or after an equals sign. An option may be given once. The two switches of the
program itself may stand before the command or after it.

Words are read from left to right, and the first one that is wrong, or that asks for help or for the
version, settles what happens.
-/

set_option autoImplicit false

namespace ClientSynth.CommandLine

/-! ## Options -/

structure OptionSpec where
  /-- The name after two dashes. -/
  name : String
  /-- The letter after one dash. -/
  short : Option Char := none
  /-- How help names the value; absent for a switch. -/
  value : Option String := none
  isRequired : Bool := false
  /-- Whether the value may be empty. -/
  allowsEmpty : Bool := true
  default : Option String := none
  help : String
  deriving DecidableEq

def jsonSwitch : OptionSpec where
  name := "json"
  help := "Output as JSON instead of human-readable format"

def verboseSwitch : OptionSpec where
  name := "verbose"
  short := some 'v'
  help := "Verbose output (debug logging, frame details)"

def helpSwitch : OptionSpec where
  name := "help"
  short := some 'h'
  help := "Print help"

def versionSwitch : OptionSpec where
  name := "version"
  short := some 'V'
  help := "Print version"

def contractOption : OptionSpec where
  name := "contract"
  value := some "CONTRACT"
  isRequired := true
  allowsEmpty := false
  help := "Contract file (.json, .yaml or .yml)"

def outOption : OptionSpec where
  name := "out"
  value := some "OUT"
  allowsEmpty := false
  help := "Write the source to this file instead of stdout"

def methodOption : OptionSpec where
  name := "method"
  value := some "METHOD"
  isRequired := true
  help := "Method to invoke"

def argsOption : OptionSpec where
  name := "args"
  value := some "ARGS"
  default := some "[]"
  help := "Arguments as a JSON array, in parameter order"

def baseUrlOption : OptionSpec where
  name := "base-url"
  value := some "BASE_URL"
  help := "Base URL for relative routes (default: $REST_SYNTH_BASE_URL)"

/-! ## Commands -/

inductive Command where
  | emit | inspect | call
  deriving DecidableEq, Repr

namespace Command

/-- All commands, in the order of the help. -/
def all : List Command := [emit, inspect, call]

def name : Command → String
  | emit => "emit"
  | inspect => "inspect"
  | call => "call"

def about : Command → String
  | emit => "Print the synthesized Rust source for a contract"
  | inspect => "Show the frame chain of every routed method"
  | call => "Invoke one synthesized method over HTTP"

/-- The options of a command, in the order of the help. -/
def options : Command → List OptionSpec
  | emit => [contractOption, jsonSwitch, verboseSwitch, outOption, helpSwitch]
  | inspect => [contractOption, jsonSwitch, verboseSwitch, helpSwitch]
  | call =>
    [contractOption, jsonSwitch, verboseSwitch, methodOption, argsOption, baseUrlOption, helpSwitch]

def ofName? (word : String) : Option Command :=
  all.find? (·.name == word)

end Command

/-- The options that may stand before the command. -/
def programOptions : List OptionSpec :=
  [jsonSwitch, verboseSwitch, helpSwitch, versionSwitch]

/-! ## Reading -/

/-- Options that were given, with their values, the last one first. -/
abbrev Given := List (OptionSpec × String)

def Given.has (g : Given) (o : OptionSpec) : Bool :=
  g.any (·.1 == o)

/-- The value of an option that was given, or its default. -/
def Given.value? (g : Given) (o : OptionSpec) : Option String :=
  ((g.find? (·.1 == o)).map (·.2)) <|> o.default

/-- Why reading ends before the words do. -/
inductive Stop where
  | usage
  | version
  | help
  deriving DecidableEq, Repr

/-- One more option, if it can be given here. -/
def give (o : OptionSpec) (value : String) (g : Given) : Except Stop Given :=
  if o = helpSwitch then .error .help
  else if o = versionSwitch then .error .version
  else if g.has o || (value.isEmpty && o.value.isSome && !o.allowsEmpty) then .error .usage
  else .ok ((o, value) :: g)

/-- The switches of letters that share a dash. -/
def giveLetters (options : List OptionSpec) : List Char → Given → Except Stop Given
  | [], g => .ok g
  | c :: cs, g =>
    match options.find? (·.short == some c) with
    | some o => give o "" g >>= giveLetters options cs
    | none => .error .usage

inductive Word where
  /-- A word without a dash, or a dash alone. -/
  | plain (text : String)
  /-- The two dashes after which nothing is an option. -/
  | separator
  /-- Two dashes and a name, perhaps with a value. -/
  | long (name : String) (value : Option String)
  | letters (cs : List Char)
  deriving DecidableEq, Repr

/-- What a word is, by its dashes. -/
def Word.of (s : String) : Word :=
  match s.toList with
  | ['-', '-'] => .separator
  | '-' :: '-' :: cs =>
    match cs.dropWhile (· ≠ '=') with
    | [] => .long (String.ofList cs) none
    | _ :: value => .long (String.ofList (cs.takeWhile (· ≠ '='))) (some (String.ofList value))
  | '-' :: c :: cs => .letters (c :: cs)
  | _ => .plain s

/-- The options that words give, up to the first word that is none, which comes back with the words
after it. -/
def readOptions (options : List OptionSpec) (g : Given) :
    List String → Except Stop (Given × List String)
  | [] => .ok (g, [])
  | word :: rest =>
    match Word.of word with
    | .plain _ | .separator => .ok (g, word :: rest)
    | .letters cs => giveLetters options cs g >>= fun g => readOptions options g rest
    | .long name attached =>
      match options.find? (·.name == name) with
      | none => .error .usage
      | some o =>
        match o.value, attached with
        | none, none => give o "" g >>= fun g => readOptions options g rest
        | none, some _ => .error .usage
        | some _, some v => give o v g >>= fun g => readOptions options g rest
        | some _, none =>
          match rest with
          | [] => .error .usage
          | v :: rest =>
            -- A word with a dash is not taken for a value, whatever follows the dash.
            match Word.of v with
            | .plain _ => give o v g >>= fun g => readOptions options g rest
            | _ => .error .usage

/-- What the command line asks for. -/
inductive Intent where
  | run (command : Command) (given : Given)
  /-- Help, on a command or on the program. -/
  | help (topic : Option Command)
  | version
  | usage
  deriving DecidableEq

/-- What the words after a command ask for. -/
def readCommand (before : Given) (c : Command) (words : List String) : Intent :=
  match readOptions c.options [] words with
  | .error .help => .help (some c)
  | .error _ => .usage
  | .ok (g, rest) =>
    -- Commands take no words of their own, but a separator at the end does no harm.
    if rest = [] ∨ rest = ["--"] then
      if c.options.all fun o => !o.isRequired || g.has o then .run c (g ++ before) else .usage
    else .usage

/-- What the words after `help` ask for. -/
def readHelp : List String → Intent
  | [] => .help none
  | word :: rest =>
    match Command.ofName? word with
    | some c => if rest = [] then .help (some c) else .usage
    | none => if word = "help" ∧ rest = [] then .help none else .usage

/-- What the words of a command line ask for. -/
def read (words : List String) : Intent :=
  match readOptions programOptions [] words with
  | .error .help => .help none
  | .error .version => .version
  | .error .usage | .ok (_, []) => .usage
  | .ok (g, word :: rest) =>
    if word = "help" then readHelp rest
    else
      match Command.ofName? word with
      | some c => readCommand g c rest
      | none => .usage

/-! ## Help -/

/-- An option as help shows it on the left. -/
def OptionSpec.label (o : OptionSpec) : String :=
  (match o.short with
    | some c => "-" ++ String.singleton c ++ ", "
    | none => "    ") ++ "--" ++ o.name ++
  match o.value with
  | some v => " <" ++ v ++ ">"
  | none => ""

/-- An option as help shows it on the right. -/
def OptionSpec.note (o : OptionSpec) : String :=
  match o.default with
  | some v => o.help ++ " [default: " ++ v ++ "]"
  | none => o.help

/-- Two columns, the right one aligned. -/
def columns (rows : List (String × String)) : String :=
  let width := (rows.map (·.1.length)).foldl max 0
  String.join (rows.map fun r => "  " ++ r.1 ++ "".pushn ' ' (width - r.1.length + 2) ++ r.2 ++ "\n")

/-- The part of help on options. -/
def optionsHelp (options : List OptionSpec) : String :=
  "Options:\n" ++ columns (options.map fun o => (o.label, o.note))

def programName : String := "rest-synth"

/-- The version as it is printed. -/
def versionText : String := programName ++ " 0.1.0\n"

/-- The options that a command cannot do without, as the usage line shows them. -/
def requiredUsage (c : Command) : String :=
  String.join ((c.options.filter (·.isRequired)).map fun o =>
    " --" ++ o.name ++ " <" ++ o.value.getD "" ++ ">")

def helpText : Option Command → String
  | some c =>
    c.about ++ "\n\nUsage: " ++ programName ++ " " ++ c.name ++ " [OPTIONS]" ++ requiredUsage c ++
      "\n\n" ++ optionsHelp c.options
  | none =>
    "Synthesize HTTP clients from declarative interface contracts\n\nUsage: " ++ programName ++
      " [OPTIONS] <COMMAND>\n\nCommands:\n" ++
      columns ((Command.all.map fun c => (c.name, c.about)) ++
        [("help", "Print this message or the help of the given subcommand(s)")]) ++
      "\n" ++ optionsHelp programOptions

end ClientSynth.CommandLine

import ClientSynth.CommandLine.Run

/-!
# `ClientSynth.Main` — the program

Runs the task of the command line on the disk.
-/

set_option autoImplicit false

namespace ClientSynth.CommandLine

/-- The problem behind an error of the system. -/
def problemOf : IO.Error → FileProblem
  | .noFileOrDirectory .. => .missing
  | .inappropriateType .. => .isDirectory
  | e => .other (toString e)

/-- The variables that settings are read from. -/
def variableNames : List String :=
  ["REST_SYNTH_BASE_URL", "REST_SYNTH_TIMEOUT_SECS", "REST_SYNTH_CONNECT_TIMEOUT_SECS",
    "REST_SYNTH_CALL_TIMEOUT_MS", "REST_SYNTH_VERBOSE"]

/-- The variables of this process. -/
def processEnvironment : IO Environment := do
  let mut found : List (String × String) := []
  for name in variableNames do
    if let some value ← IO.getEnv name then
      found := (name, value) :: found
  return fun name => found.lookup name

/-- Runs a task on the disk. -/
def Task.runOnDisk : Task → IO Report
  | done report => return report
  | read file next => do
    let bytes ← try
        pure (.ok (← IO.FS.readBinFile file))
      catch e => pure (.error (problemOf e))
    (next bytes).runOnDisk
  | write file text next => do
    let problem ← try
        IO.FS.writeFile file text
        pure none
      catch e => pure (some (problemOf e))
    (next problem).runOnDisk

end ClientSynth.CommandLine

open ClientSynth.CommandLine in
/-- Runs the program. -/
def main (words : List String) : IO UInt32 := do
  let report ← (task {} (← processEnvironment) words).runOnDisk
  IO.print report.stdout
  IO.eprint report.stderr
  return report.exit.toUInt32

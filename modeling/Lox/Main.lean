import Lox.Cli

/-!
# The program

Gathers what a command line may look at, hands it to `Lox.Cli` and writes what
comes back. Only the prompt reads its input line by line while it runs.
-/
namespace Lox.Main

/-- Writes chunks to the two streams. -/
def write (chunks : List Cli.Chunk) : IO Unit := do
  let out ← IO.getStdout
  let err ← IO.getStderr
  for c in chunks do
    match c with
    | .out text => out.putStr text
    | .err text => err.putStr text
  out.flush

/-- The file with this name, if it can be read. -/
def entry? (name : String) : IO (Option (String × Entry)) := do
  try
    let bytes ← IO.FS.readBinFile name
    return some (name, .file bytes.toList)
  catch _ => return none

/-- The files that the arguments and the settings may refer to, under the names
by which they are referred to. -/
def gather (args : List String) : IO Workspace := do
  let names := Settings.projectFile :: Settings.ownFile :: args
  let found ← names.mapM entry?
  return Workspace.ofList (found.filterMap id)

/-- The environment variables that decide settings. -/
def environment : IO (List (String × String)) := do
  let found ← Settings.environmentNames.mapM fun (_, name) => do
    return (← IO.getEnv name).map fun value => (name, value)
  return found.filterMap id

/-- Shows the prompt and runs lines until the input ends. What was read at once
may hold several lines, since a carriage return ends a line too. -/
partial def prompt (s : Settings) : IO Unit := do
  write [.out (Cli.promptText s)]
  let read ← (← IO.getStdin).getLine
  match Cli.inputLines read with
  | [] => write [.out "\n"]
  | first :: others =>
      write (Cli.promptLine s first)
      for line in others do
        write (.out (Cli.promptText s) :: Cli.promptLine s line)
      prompt s

end Lox.Main

/-- Carries out the command line. -/
def main (args : List String) : IO UInt32 := do
  let workspace ← Lox.Main.gather args
  let env ← Lox.Main.environment
  match Lox.Cli.launch ⟨"*", "*", "*"⟩ workspace env args with
  | .prompting s =>
      Lox.Main.prompt s
      return 0
  | .ended (.exited status chunks) =>
      Lox.Main.write chunks
      return status.toUInt32
  | .ended (.crashed e) =>
      Lox.Main.write [.err (e.message ++ "\n")]
      return 1

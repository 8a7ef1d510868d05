import Lox.Cli.Arguments
import Lox.Path
import Lox.Run
import Lox.Settings
import Lox.Table
import Lox.Text.Screen

/-!
# The command line

A command line is worked out in stages. The options in front of the command come
first, and of these the ones that only inform end everything. Then the command
must exist, then the settings must load, and only then the arguments of the
command itself are looked at. What a command does is a list of chunks written to
the two streams, and an exit status.
-/
namespace Lox.Cli

/-- A piece of text written to one of the two streams. -/
inductive Chunk where
  | out (text : String)
  | err (text : String)
  deriving DecidableEq

namespace Chunk

def out? : Chunk → String
  | out text => text
  | err _ => ""

def err? : Chunk → String
  | out _ => ""
  | err text => text

/-- What reaches the output stream. -/
def stdout (cs : List Chunk) : String :=
  cs.foldl (fun s c => s ++ c.out?) ""

/-- What reaches the error stream. -/
def stderr (cs : List Chunk) : String :=
  cs.foldl (fun s c => s ++ c.err?) ""

end Chunk

/-- Exit statuses besides those of a run. -/
def usageStatus : Nat := 2

def configurationStatus : Nat := 64

def noInputStatus : Nat := 66

/-- How a command line ended. -/
inductive Ending where
  | exited (status : Nat) (chunks : List Chunk)
  /-- The settings could not even be read. -/
  | crashed (e : Settings.LoadError)

/-- What is told about the machine. -/
structure Host where
  runtime : String
  platform : String
  architecture : String

def version : String := "0.3.0"

def versionText (h : Host) : String :=
  "pylox version " ++ version ++ "\n\nEnvironment:\n  Python:        " ++ h.runtime ++
    "\n  Platform:      " ++ h.platform ++ "\n  Architecture:  " ++ h.architecture ++ "\n"

def helpText : String :=
  "pylox – interpreter for the Lox expression language\n\nCommands:\n" ++
    "  • run SCRIPT     → execute a script\n" ++
    "  • repl           → interactive prompt\n" ++
    "  • tokens SCRIPT  → show scanner output\n" ++
    "  • ast SCRIPT     → show the parsed syntax tree\n"

/-- The chunks of some events; notes show at the lowest log level only. -/
def chunksOf (level : LogLevel) (events : List Event) : List Chunk :=
  events.filterMap fun
    | .output line => some (.out (line ++ "\n"))
    | .report text => some (.err (text ++ "\n"))
    | .note topic text =>
        if level.showsNotes then some (.err ("[DEBUG] " ++ topic.name ++ ": " ++ text ++ "\n"))
        else none

/-- The commands, ready to be carried out. -/
inductive Command where
  | run (script : Path)
  | repl
  | tokens (script : Path) (plain : Bool)
  | ast (script : Path) (expression : Bool)
  deriving DecidableEq

/-- What the arguments of a command ask for. -/
inductive Request where
  | help
  | command (c : Command)
  deriving DecidableEq

def helpFlag : String × String := ("--help", "help")

def mainSpec : Spec :=
  ⟨[("--version", "version"), ("-v", "version"), helpFlag], [("--log-level", "log-level")], false⟩

def plainSpec : Spec := ⟨[helpFlag], [], true⟩

def tokensSpec : Spec := ⟨[("--plain", "plain"), helpFlag], [], true⟩

def astSpec : Spec := ⟨[("--expression", "expression"), ("-e", "expression"), helpFlag], [], true⟩

/-- The names of the commands. -/
def commandNames : List String := ["run", "repl", "tokens", "ast"]

/-- The path in the only argument of a command. -/
def onlyPath? : List String → Option Path
  | [script] => some (Path.ofText script)
  | _ => none

/-- A command from its name and arguments; nothing if they do not fit. -/
def request? (name : String) (args : List String) : Option Request :=
  let read (spec : Spec) (make : Arguments → Option Command) : Option Request :=
    (Arguments.read? spec args).bind fun a =>
      if a.flags.contains "help" then some .help else (make a).map .command
  if name == "run" then read plainSpec fun a => (onlyPath? a.others).map .run
  else if name == "repl" then read plainSpec fun a => if a.others.isEmpty then some .repl else none
  else if name == "tokens" then
    read tokensSpec fun a => (onlyPath? a.others).map fun p => .tokens p (a.flags.contains "plain")
  else if name == "ast" then
    read astSpec fun a => (onlyPath? a.others).map fun p => .ast p (a.flags.contains "expression")
  else none

/-- A line of a command's own words, meant for people. -/
def plainLine (text : String) : String :=
  Text.ControlSequence.strip text ++ "\n"

/-- What is written about a script that is there but cannot be read. -/
def cannotRead (script : Path) (reason : String) : Chunk :=
  .err (plainLine ("Error: cannot read script '" ++ script.text ++ "': " ++ reason))

/-- The ending of a command whose script cannot be opened. -/
def cannotOpen (w : Workspace) (script : Path) : Ending :=
  if w.isTooLong script then
    .exited noInputStatus
      [cannotRead script
        ("[Errno 36] File name too long: " ++
          String.ofList (Text.Quoted.encode script.text.toList))]
  else
    .exited noInputStatus
      [.err (plainLine ("Error: cannot open script '" ++ script.text ++ "'"))]

/-- Runs a script. -/
def runScript (level : LogLevel) (script : Path) (bytes : List UInt8) : Ending :=
  let opening := chunksOf level [.note .runner ("Running " ++ script.text)]
  match Script.run Reporter.fresh bytes with
  | .error e => .exited noInputStatus (opening ++ [cannotRead script e.message])
  | .ok s =>
      let note := Event.note .commands
        ("Run of " ++ script.text ++ " finished: " ++ s.value.name)
      .exited s.value.exitCode (opening ++ chunksOf level (s.events ++ [note]))

/-- Lists the tokens of a script. -/
def listTokens (level : LogLevel) (script : Path) (plain : Bool) (source : String) : Ending :=
  let s := Reporter.fresh.scan source
  let tokens := s.value.tokens
  let listing :=
    if plain then tokens.map fun t => Chunk.out (plainLine t.text)
    else [.out (Table.ofTokens script.text tokens).text]
  .exited s.reporter.outcome.exitCode (chunksOf level s.events ++ listing)

/-- Shows the trees of a script. -/
def showTrees (level : LogLevel) (expression : Bool) (source : String) : Ending :=
  let s := Reporter.fresh.scan source
  let c := Cursor.start s.value.stream
  if expression then
    let p := s.reporter.parseExpression c
    .exited p.reporter.outcome.exitCode
      (chunksOf level (s.events ++ p.events) ++
        (p.value.1.toList.map fun e => Chunk.out (plainLine e.text)))
  else
    let p := s.reporter.parse c
    .exited p.reporter.outcome.exitCode
      (chunksOf level (s.events ++ p.events) ++
        (p.value.1.statements.map fun x => Chunk.out (plainLine x.text)))

/-- Hands the source text of a script to a command. -/
def withSource (script : Path) (bytes : List UInt8) (command : String → Ending) : Ending :=
  match Script.source bytes with
  | .error e => .exited noInputStatus [cannotRead script e.message]
  | .ok source => command source

/-- What a program prints at the prompt is shown without control sequences. -/
def plainOutput : Event → Event
  | .output line => .output (Text.ControlSequence.strip line)
  | e => e

/-- What one line at the prompt leads to. -/
def promptLine (s : Settings) (line : String) : List Chunk :=
  let r := Reporter.fresh.run line
  chunksOf s.logLevel
    (r.events.map plainOutput ++ [.note .commands ("Prompt line finished: " ++ r.value.name)])

/-- The prompt as it is shown. -/
def promptText (s : Settings) : String :=
  let lines := Text.Screen.lines (Text.Screen.dropMoves s.prompt.toList)
  String.intercalate "\n" (lines.map fun line => String.ofList (Text.Screen.expandTabs 0 line))

/-- The prompt over some lines. It is shown once more at their end. -/
def promptLines (s : Settings) (lines : List String) : List Chunk :=
  (lines.flatMap fun line => .out (promptText s) :: promptLine s line) ++
    [.out (promptText s), .out "\n"]

/-- What a command line comes to before anything is read from the input. -/
inductive Launch where
  | ended (e : Ending)
  /-- A prompt is to be opened. -/
  | prompting (s : Settings)

/-- Carries out a command. -/
def carryOut (w : Workspace) (s : Settings) : Command → Launch
  | .repl => .prompting s
  | .run script =>
      .ended (match w.file? script with
        | none => cannotOpen w script
        | some bytes => runScript s.logLevel script bytes)
  | .tokens script plain =>
      .ended (match w.file? script with
        | none => cannotOpen w script
        | some bytes => withSource script bytes (listTokens s.logLevel script plain))
  | .ast script expression =>
      .ended (match w.file? script with
        | none => cannotOpen w script
        | some bytes => withSource script bytes (showTrees s.logLevel expression))

/-- The settings of a workspace, with the log level given on the command line. -/
def settings (w : Workspace) (env : List (String × String)) (level : Option String) :
    Except Settings.LoadError Settings := do
  let s ← Settings.load (w.file? (Path.ofText Settings.projectFile))
    (w.file? (Path.ofText Settings.ownFile)) env
  match level with
  | none => .ok s
  | some l => (s.withLevel l).mapError .invalid

/-- A command line that does not fit. -/
def misused : Launch := .ended (.exited usageStatus [.err helpText])

/-- A command whose name and options in front are known. -/
def dispatch (w : Workspace) (env : List (String × String)) (level : Option String)
    (name : String) (args : List String) : Launch :=
  match settings w env level with
  | .error e =>
      if e.concernsSettings then
        .ended (.exited configurationStatus
          [.err (plainLine ("Error: invalid configuration:\n" ++ e.message))])
      else .ended (.crashed e)
  | .ok s =>
      match request? name args with
      | none => misused
      | some .help => .ended (.exited 0 [.out helpText])
      | some (.command c) => carryOut w s c

/-- Works out a command line up to the point where input would be read. -/
def launch (h : Host) (w : Workspace) (env : List (String × String)) (args : List String) :
    Launch :=
  if args.isEmpty then misused
  else
    match Arguments.read? mainSpec args with
    | none => misused
    | some a =>
        match a.flags, a.others with
        | flag :: _, _ =>
            .ended (.exited 0 [.out (if flag == "version" then versionText h else helpText)])
        | [], [] => misused
        | [], name :: rest =>
            if commandNames.contains name then dispatch w env (a.value? "log-level") name rest
            else misused

/-- The lines of the input. -/
def inputLines (stdin : String) : List String :=
  (Text.Newline.lines (Text.Newline.normalize stdin.toList)).map String.ofList

/-- Works out a command line whose input is known beforehand. -/
def execute (h : Host) (w : Workspace) (env : List (String × String)) (args : List String)
    (stdin : String) : Ending :=
  match launch h w env args with
  | .ended e => e
  | .prompting s => .exited 0 (promptLines s (inputLines stdin))

end Lox.Cli

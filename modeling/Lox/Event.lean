import Lox.Report

/-!
# Events

What a run does for others to see, in order: lines printed by the program,
reports of errors, and notes for a log that few will read.
-/
namespace Lox

/-- Who writes a note. -/
inductive Topic where
  | scanner
  | parser
  | errors
  | interpreter
  | runner
  | commands
  deriving DecidableEq, Repr

namespace Topic

/-- The name of a topic in a log line. -/
def name : Topic → String
  | scanner => "pylox.core.scanner"
  | parser => "pylox.core.parser"
  | errors => "pylox.core.errors"
  | interpreter => "pylox.core.interpreter"
  | runner => "pylox.core.runner"
  | commands => "pylox.cli.commands"

end Topic

inductive Event where
  /-- A line printed by the program. -/
  | output (line : String)
  /-- The text of a report. -/
  | report (text : String)
  /-- A note for the log. -/
  | note (topic : Topic) (text : String)
  deriving DecidableEq

namespace Event

def output? : Event → Option String
  | output line => some line
  | _ => none

def report? : Event → Option String
  | report text => some text
  | _ => none

end Event

/-- A report is noted in the log and then written. -/
def Report.events (r : Report) : List Event :=
  [.note .errors ("Reported: " ++ r.text), .report r.text]

/-- What an operation gave, the reporter it left behind, and what was seen. -/
structure Step (α : Type) where
  value : α
  reporter : Reporter
  events : List Event

end Lox

import Lox.Event
import Lox.Program
import Lox.Text.Input

/-!
# Runs

A run scans and reads a source text, reports every error in it, and executes
its statements only if there was none, now or since the reporter was last
reset. Execution stops at the first runtime error.
-/
namespace Lox

/-- The lines that a statement prints. -/
def Stmt.perform : Stmt → Except RuntimeError (List String)
  | .expression e =>
      match e.eval with
      | .ok _ => .ok []
      | .error x => .error x
  | .print e =>
      match e.eval with
      | .ok v => .ok [v.text]
      | .error x => .error x

/-- The lines that some statements print, and the error that stopped them. -/
def Stmt.performAll : List Stmt → List String × Option RuntimeError
  | [] => ([], none)
  | s :: ss =>
      match s.perform with
      | .error x => ([], some x)
      | .ok lines =>
          let more := performAll ss
          (lines ++ more.1, more.2)

/-- The tokens of a scan, ready to be read. -/
def Scan.stream (s : Scan) : TokenStream :=
  (TokenStream.ofTokens? s.tokens).getD ⟨s.tokens, Token.endOf 1⟩

namespace Reporter

/-- Scans a source text and reports its lexical errors. -/
def scan (r : Reporter) (source : String) : Step Scan :=
  let s := Scan.ofText source
  let reports := s.errors.map LexicalError.report
  let note := Event.note .scanner
    ("Scanned " ++ decimalText s.tokens.length ++ " tokens over " ++
      decimalText (Scan.lines source) ++ " lines")
  ⟨s, r.addSyntaxAll reports, reports.flatMap Report.events ++ [note]⟩

/-- Reads a program and reports its syntax errors. -/
def parse (r : Reporter) (c : Cursor) : Step (Program × Cursor) :=
  let (p, after) := c.parse
  let reports := p.errors.map SyntaxError.report
  let note := Event.note .parser
    ("Parsed " ++ decimalText p.statements.length ++ " statements with " ++
      decimalText p.errors.length ++ " errors")
  ⟨(p, after), r.addSyntaxAll reports, reports.flatMap Report.events ++ [note]⟩

/-- Reads one expression and reports why there is none. -/
def parseExpression (r : Reporter) (c : Cursor) : Step (Option Expr × Cursor) :=
  match c.parseExpression with
  | (.ok e, after) => ⟨(some e, after), r, []⟩
  | (.error x, after) => ⟨(none, after), r.addSyntax x.report, x.report.events⟩

/-- Executes statements and reports the error that stopped them. The value says
whether all of them ran. -/
def interpret (r : Reporter) (ss : List Stmt) : Step Bool :=
  let (lines, stopped) := Stmt.performAll ss
  let printed := lines.map Event.output
  match stopped with
  | none => ⟨true, r, printed⟩
  | some x =>
      let note := Event.note .interpreter
        ("Runtime error on line " ++ decimalText x.token.line ++ ": " ++ x.message)
      ⟨false, r.addRuntime x.report, printed ++ note :: x.report.events⟩

/-- Evaluates an expression and prints its value; nil if there is none. -/
def interpretExpression (r : Reporter) (e : Expr) : Step Value :=
  match e.eval with
  | .ok v => ⟨v, r, [.output v.text]⟩
  | .error x => ⟨.nil, r.addRuntime x.report, x.report.events⟩

/-- Runs a source text. -/
def run (r : Reporter) (source : String) : Step Outcome :=
  let scanned := r.scan source
  let parsed := scanned.reporter.parse (Cursor.start scanned.value.stream)
  let p := parsed.value.1
  let soFar := scanned.events ++ parsed.events
  if parsed.reporter.hadError then
    let note := Event.note .runner
      ("Skipping evaluation: " ++ decimalText p.errors.length ++ " syntax errors")
    ⟨parsed.reporter.outcome, parsed.reporter, soFar ++ [note]⟩
  else
    let done := parsed.reporter.interpret p.statements
    ⟨done.reporter.outcome, done.reporter, soFar ++ done.events⟩

end Reporter

end Lox

/-!
## Scripts

A script is a file of UTF-8 text in which any of the usual line ends may occur.
-/
namespace Lox.Script

/-- The source text in a file. -/
def source (bytes : List UInt8) : Except Text.Utf8.Error String :=
  (Text.Utf8.decode bytes).map fun cs => String.ofList (Text.Newline.normalize cs)

/-- Runs the source text in a file. -/
def run (r : Reporter) (bytes : List UInt8) : Except Text.Utf8.Error (Step Outcome) :=
  (source bytes).map r.run

end Lox.Script

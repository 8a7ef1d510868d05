import Lox.Run

/-!
# Sessions and prompts

In a session many operations share one reporter, so an error that was not reset
keeps later runs from executing anything. At a prompt every line is a run of its
own, with a fresh reporter, and lines are read one at a time on demand.
-/
namespace Lox

namespace Session

/-- An operation on the shared reporter. -/
inductive Request where
  | run (source : String)
  | scan (source : String)
  | parse (source : String)
  /-- Tokens from outside, read as a program. -/
  | read (ts : List Token)
  | eval (source : String)
  /-- A report without a place. -/
  | error (line : Int) (message : String)
  /-- A report of a syntax error at a token. -/
  | tokenError (t : Token) (message : String)
  /-- A report of a runtime error at a token. -/
  | runtimeError (t : Token) (message : String)
  | reset

/-- What an operation answers. -/
inductive Answer where
  | outcome (o : Outcome)
  | tokens (ts : List Token)
  | program (p : Program)
  | evaluation (e : Expr) (v : Value)
  | noExpression
  | nothing

/-- The step that only adds a report of a syntax error. -/
def syntaxReport (r : Reporter) (x : Report) : Step Answer :=
  ⟨.nothing, r.addSyntax x, x.events⟩

/-- Scans and reads one expression, and evaluates it if there is one. -/
def evaluate (r : Reporter) (source : String) : Step Answer :=
  let scanned := r.scan source
  let parsed := scanned.reporter.parseExpression (Cursor.start scanned.value.stream)
  let soFar := scanned.events ++ parsed.events
  match parsed.value.1 with
  | none => ⟨.noExpression, parsed.reporter, soFar⟩
  | some e =>
      let done := parsed.reporter.interpretExpression e
      ⟨.evaluation e done.value, done.reporter, soFar ++ done.events⟩

def step (r : Reporter) : Request → Step Answer
  | .run source =>
      let s := r.run source
      ⟨.outcome s.value, s.reporter, s.events⟩
  | .scan source =>
      let s := r.scan source
      ⟨.tokens s.value.tokens, s.reporter, s.events⟩
  | .parse source =>
      let scanned := r.scan source
      let parsed := scanned.reporter.parse (Cursor.start scanned.value.stream)
      ⟨.program parsed.value.1, parsed.reporter, scanned.events ++ parsed.events⟩
  | .read ts =>
      match TokenStream.ofTokens? ts with
      | none => ⟨.nothing, r, []⟩
      | some stream =>
          let parsed := r.parse (Cursor.start stream)
          ⟨.program parsed.value.1, parsed.reporter, parsed.events⟩
  | .eval source => evaluate r source
  | .error line message => syntaxReport r ⟨line, "", message⟩
  | .tokenError t message => syntaxReport r ⟨t.line, t.place, message⟩
  | .runtimeError t message =>
      let x : Report := ⟨t.line, "", message⟩
      ⟨.nothing, r.addRuntime x, x.events⟩
  | .reset => ⟨.nothing, r.reset, []⟩

/-- The steps of a session, each from the reporter that the one before it left. -/
def play (r : Reporter) : List Request → List (Step Answer)
  | [] => []
  | q :: qs =>
      let s := step r q
      s :: play s.reporter qs

end Session

/-- A prompt that waits for a demand. -/
structure Prompt where
  /-- What will be answered to the requests for a line still to come. There are no
  lines behind the end of the list. -/
  answers : List (Option String)
  /-- How many lines were asked for so far. -/
  reads : Nat
  /-- A line that was asked for was missing. -/
  ended : Bool

namespace Prompt

def start (answers : List (Option String)) : Prompt := ⟨answers, 0, false⟩

/-- One demand for an outcome: the outcome if there was a line left, how many
times a line was asked for so far, and what was seen meanwhile. -/
structure Turn where
  outcome : Option Outcome
  reads : Nat
  events : List Event

/-- Meets a demand. One line is asked for and run by itself. The first missing line
ends the prompt, which then asks for nothing any more. -/
def demand (p : Prompt) : Turn × Prompt :=
  if p.ended then (⟨none, p.reads, []⟩, p)
  else
    match p.answers with
    | some line :: answers =>
        let s := Reporter.fresh.run line
        (⟨some s.value, p.reads + 1, s.events⟩, ⟨answers, p.reads + 1, false⟩)
    | answers => (⟨none, p.reads + 1, []⟩, ⟨answers.tail, p.reads + 1, true⟩)

/-- Up to `n` turns of a prompt that is not over, of which one without an outcome is
the last. -/
def play : Nat → Prompt → List Turn
  | 0, _ => []
  | n + 1, p => if p.ended then [] else p.demand.1 :: play n p.demand.2

/-- Up to `n` turns over the answers to requests for a line. -/
def turns (n reads : Nat) (answers : List (Option String)) : List Turn :=
  play n ⟨answers, reads, false⟩

end Prompt

end Lox

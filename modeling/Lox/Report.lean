import Lox.Eval
import Lox.Scan
import Lox.Syntax

/-!
# Reports

Every error is reported on one line. A reporter remembers the texts of all
reports and, until it is reset, whether any of them concerned the syntax or the
running of a program. Both together give the outcome of a run.
-/
namespace Lox

/-- How a run ended. -/
inductive Outcome where
  | ok
  | syntaxError
  | runtimeError
  deriving DecidableEq, Repr

namespace Outcome

def name : Outcome → String
  | ok => "ok"
  | syntaxError => "syntax_error"
  | runtimeError => "runtime_error"

/-- The exit status of a process with this outcome. -/
def exitCode : Outcome → Nat
  | ok => 0
  | syntaxError => 65
  | runtimeError => 70

end Outcome

/-- What a report says: a line, a place on it and a message. -/
structure Report where
  line : Int
  place : String
  message : String
  deriving DecidableEq

/-- An integer in decimal digits. -/
def decimalText (n : Int) : String :=
  (if n < 0 then "-" else "") ++ String.ofList (Nat.toDigits 10 n.natAbs)

namespace Report

def text (r : Report) : String :=
  "[line " ++ decimalText r.line ++ "] Error" ++ r.place ++ ": " ++ r.message

end Report

def LexicalError.report (e : LexicalError) : Report :=
  ⟨e.line, "", e.flaw.message⟩

def SyntaxError.report (e : SyntaxError) : Report :=
  ⟨e.token.line, e.token.place, e.expected.message⟩

def RuntimeError.report (e : RuntimeError) : Report :=
  ⟨e.token.line, "", e.message⟩

/-- What has been reported so far. -/
structure Reporter where
  messages : List String
  hadError : Bool
  hadRuntimeError : Bool
  deriving DecidableEq

namespace Reporter

/-- A reporter to which nothing has been reported. -/
def fresh : Reporter := ⟨[], false, false⟩

/-- An error while running outweighs one in the syntax. -/
def outcome (r : Reporter) : Outcome :=
  if r.hadRuntimeError then .runtimeError
  else if r.hadError then .syntaxError
  else .ok

/-- Takes note of a lexical or syntax error. -/
def addSyntax (r : Reporter) (x : Report) : Reporter :=
  ⟨r.messages ++ [x.text], true, r.hadRuntimeError⟩

/-- Takes note of some lexical or syntax errors, in order. -/
def addSyntaxAll (r : Reporter) (xs : List Report) : Reporter :=
  xs.foldl addSyntax r

@[simp] theorem addSyntaxAll_nil (r : Reporter) : r.addSyntaxAll [] = r := rfl

@[simp] theorem addSyntaxAll_cons (r : Reporter) (x : Report) (xs : List Report) :
    r.addSyntaxAll (x :: xs) = (r.addSyntax x).addSyntaxAll xs := rfl

theorem messages_addSyntaxAll (r : Reporter) (xs : List Report) :
    (r.addSyntaxAll xs).messages = r.messages ++ xs.map Report.text := by
  induction xs generalizing r with
  | nil => simp
  | cons x xs ih => simp [ih, addSyntax]

theorem hadError_addSyntaxAll (r : Reporter) (xs : List Report) :
    (r.addSyntaxAll xs).hadError = (r.hadError || !xs.isEmpty) := by
  induction xs generalizing r with
  | nil => simp
  | cons x xs ih => simp [ih, addSyntax]

theorem hadRuntimeError_addSyntaxAll (r : Reporter) (xs : List Report) :
    (r.addSyntaxAll xs).hadRuntimeError = r.hadRuntimeError := by
  induction xs generalizing r with
  | nil => rfl
  | cons x xs ih => simp [ih, addSyntax]

/-- Takes note of an error while running. -/
def addRuntime (r : Reporter) (x : Report) : Reporter :=
  ⟨r.messages ++ [x.text], r.hadError, true⟩

/-- Forgets that there were errors; the messages are kept. -/
def reset (r : Reporter) : Reporter :=
  ⟨r.messages, false, false⟩

end Reporter

end Lox

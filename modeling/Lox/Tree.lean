import Lox.Run

/-!
# Trees of any sort

A tree handed over from outside may be an expression, a statement, or missing
because its text could not be read. Using one sort where the other belongs is a
misuse, not an error of the program.
-/
namespace Lox

inductive Tree where
  | expr (e : Expr)
  | stmt (s : Stmt)
  | missing
  deriving DecidableEq

/-- A tree of the wrong sort. -/
inductive Misuse where
  | notExpression (form : String)
  | notStatement (form : String)
  deriving DecidableEq

namespace Misuse

def message : Misuse → String
  | notExpression form => "Unknown expression type: " ++ form
  | notStatement form => "Unknown statement type: " ++ form

end Misuse

/-- Why a tree has no value. -/
inductive Fault where
  | misuse (m : Misuse)
  | runtime (x : RuntimeError)
  deriving DecidableEq

namespace Tree

def ofExpr? : Option Expr → Tree
  | some e => expr e
  | none => missing

/-- The name of the form that a tree has at its root. -/
def form : Tree → String
  | expr e => e.form
  | stmt s => s.form
  | missing => "NoneType"

def text : Tree → String
  | expr e => e.text
  | stmt s => s.text
  | missing => ""

/-- The expression that a tree is. -/
def expr? : Tree → Except Misuse Expr
  | expr e => .ok e
  | t => .error (.notExpression t.form)

/-- The statement that a tree is. -/
def stmt? : Tree → Except Misuse Stmt
  | stmt s => .ok s
  | t => .error (.notStatement t.form)

/-- The value of a tree that must be an expression. -/
def eval (t : Tree) : Except Fault Value :=
  match t.expr? with
  | .error m => .error (.misuse m)
  | .ok e => e.eval.mapError .runtime

/-- The lines printed by a tree that must be a statement. -/
def perform (t : Tree) : Except Fault (List String) :=
  match t.stmt? with
  | .error m => .error (.misuse m)
  | .ok s => s.perform.mapError .runtime

/-- The statements in front of the first one that fails, that one included; an
earlier tree of the wrong sort is a misuse. -/
def statements? : List Tree → Except Misuse (List Stmt)
  | [] => .ok []
  | t :: ts =>
      match t.stmt? with
      | .error m => .error m
      | .ok s =>
          match s.perform with
          | .error _ => .ok [s]
          | .ok _ =>
              match statements? ts with
              | .error m => .error m
              | .ok ss => .ok (s :: ss)

/-- Executes trees that must be statements, as far as they are reached. -/
def interpret (r : Reporter) (ts : List Tree) : Except Misuse (Step Bool) :=
  (statements? ts).map r.interpret

/-- Evaluates a tree that must be an expression and prints its value. -/
def interpretExpression (r : Reporter) (t : Tree) : Except Misuse (Step Value) :=
  t.expr?.map r.interpretExpression

end Tree

end Lox

import Lox.Token

/-!
# Syntax

Expressions and statements are trees with a text. Operators keep their token, so that a
failing operator can name its line. The text is fully parenthesised, operator first. A
statement evaluates an expression and either forgets or prints its value.
-/
namespace Lox

inductive Expr where
  | literal (v : Value)
  | grouping (e : Expr)
  | unary (op : Token) (e : Expr)
  | binary (l : Expr) (op : Token) (r : Expr)
  deriving DecidableEq

namespace Expr

def text : Expr → String
  | literal v => v.text
  | grouping e => "(group " ++ e.text ++ ")"
  | unary op e => "(" ++ op.lexeme ++ " " ++ e.text ++ ")"
  | binary l op r => "(" ++ op.lexeme ++ " " ++ l.text ++ " " ++ r.text ++ ")"

/-- The name of the form that an expression has at its root. -/
def form : Expr → String
  | literal _ => "Literal"
  | grouping _ => "Grouping"
  | unary _ _ => "Unary"
  | binary _ _ _ => "Binary"

end Expr

inductive Stmt where
  | expression (e : Expr)
  | print (e : Expr)
  deriving DecidableEq

namespace Stmt

/-- The expression that a statement evaluates. -/
def expr : Stmt → Expr
  | expression e => e
  | print e => e

def text : Stmt → String
  | expression e => "(; " ++ e.text ++ ")"
  | print e => "(print " ++ e.text ++ ")"

/-- The name of the form that a statement has. -/
def form : Stmt → String
  | expression _ => "ExpressionStatement"
  | print _ => "PrintStatement"

end Stmt

/-!
## Syntax errors

A parse stops in front of the first token that cannot continue what has been
read, and says what would have let it go on.
-/

/-- What would have let a parse go on. -/
inductive Expectation where
  | operand
  | closingParen
  | semicolonAfterValue
  | semicolonAfterExpression
  | endOfExpression
  deriving DecidableEq, Repr

namespace Expectation

def message : Expectation → String
  | operand => "Expect expression."
  | closingParen => "Expect ')' after expression."
  | semicolonAfterValue => "Expect ';' after value."
  | semicolonAfterExpression => "Expect ';' after expression."
  | endOfExpression => "Expect end of expression."

end Expectation

/-- The place of a token inside a report. -/
def Token.place (t : Token) : String :=
  if t.kind = .eof then " at end" else " at '" ++ t.lexeme ++ "'"

/-- An expectation and the token that stands in its way. -/
structure SyntaxError where
  expected : Expectation
  token : Token
  deriving DecidableEq

/-- A parse that stopped in front of `rest`. -/
structure Halt where
  expected : Expectation
  rest : List Token
  deriving DecidableEq

namespace Halt

/-- The error of a halted parse; behind the last token stands `stop`. -/
def error (stop : Token) (h : Halt) : SyntaxError :=
  ⟨h.expected, h.rest.headD stop⟩

end Halt

end Lox

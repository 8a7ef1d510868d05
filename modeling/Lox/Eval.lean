import Lox.Syntax

/-!
# Evaluation

Operands are evaluated from left to right and then the operator is applied to
their values. An operator that rejects them ends the evaluation.
-/
namespace Lox

/-- Why an operator rejects its operands. -/
inductive Rejection where
  | operandNotNumber
  | operandsNotNumbers
  | operandsNotAddable
  | unknownUnary
  | unknownBinary
  deriving DecidableEq, Repr

/-- An operator token and why it rejects its operands. -/
structure RuntimeError where
  token : Token
  rejection : Rejection
  deriving DecidableEq

namespace RuntimeError

def message (e : RuntimeError) : String :=
  match e.rejection with
  | .operandNotNumber => "Operand must be a number."
  | .operandsNotNumbers => "Operands must be numbers."
  | .operandsNotAddable => "Operands must be two numbers or two strings."
  | .unknownUnary => "Unknown unary operator '" ++ e.token.lexeme ++ "'."
  | .unknownBinary => "Unknown binary operator '" ++ e.token.lexeme ++ "'."

end RuntimeError

namespace Value

/-- A prefix operator applied to a value. -/
def applyUnary (op : Token) (v : Value) : Except RuntimeError Value :=
  match op.kind, v with
  | .bang, v => .ok (bool !v.truthy)
  | .minus, number x => .ok (number (-x))
  | .minus, _ => .error ⟨op, .operandNotNumber⟩
  | _, _ => .error ⟨op, .unknownUnary⟩

/-- Addition of numbers and joining of strings. -/
def add (op : Token) : Value → Value → Except RuntimeError Value
  | number x, number y => .ok (number (x + y))
  | string s, string t => .ok (string (s ++ t))
  | _, _ => .error ⟨op, .operandsNotAddable⟩

/-- The operators that take two numbers and nothing else. Division is that of
doubles: by zero it gives an infinity or NaN. -/
def numeric? (x y : Float) : Kind → Option Value
  | .minus => some (number (x - y))
  | .star => some (number (x * y))
  | .slash => some (number (x / y))
  | .greater => some (bool (decide (x > y)))
  | .greaterEqual => some (bool (decide (x ≥ y)))
  | .less => some (bool (decide (x < y)))
  | .lessEqual => some (bool (decide (x ≤ y)))
  | _ => none

/-- Any other operator looks at its operands before it is looked up. -/
def applyNumeric (op : Token) : Value → Value → Except RuntimeError Value
  | number x, number y =>
      match numeric? x y op.kind with
      | some v => .ok v
      | none => .error ⟨op, .unknownBinary⟩
  | _, _ => .error ⟨op, .operandsNotNumbers⟩

/-- A binary operator applied to two values. -/
def applyBinary (op : Token) (v w : Value) : Except RuntimeError Value :=
  match op.kind with
  | .equalEqual => .ok (bool (v.same w))
  | .bangEqual => .ok (bool !(v.same w))
  | .plus => add op v w
  | _ => applyNumeric op v w

end Value

namespace Expr

/-- The value of an expression, or the first rejection met. -/
def eval : Expr → Except RuntimeError Value
  | literal v => .ok v
  | grouping e => e.eval
  | unary op e =>
      match e.eval with
      | .ok v => v.applyUnary op
      | .error x => .error x
  | binary l op r =>
      match l.eval with
      | .error x => .error x
      | .ok v =>
          match r.eval with
          | .error x => .error x
          | .ok w => v.applyBinary op w

end Expr

end Lox

import Lox.Syntax

/-!
# Reading expressions and statements

Four levels of binary operators, each folded to the left, stand above prefix
operators and operands. Every level is built from the reader of the level
below it; parentheses lead back to the top. A statement is an expression and a
semicolon, with the word `print` in front if its value is to be printed. The
tokens read from hold no end token: an empty list is the end.

Parentheses can be nested at most as deep as there are tokens, and a chain of
operators is at most as long, so both recursions are bounded by that number.

A reader that stops may tell of it before it does. Whom it tells is left open, so
the readers are written for any monad, and those that tell nobody are among them.
-/
namespace Lox

/-- Reads something off the front of a list of tokens. -/
abbrev Reader (α : Type) := List Token → Except Halt (α × List Token)

/-- A reader that may do something else on the way. -/
abbrev Reading (m : Type → Type) (α : Type) := List Token → ExceptT Halt m (α × List Token)

/-- The levels of binary operators, loosest first. -/
inductive Expr.Level where
  | equality
  | comparison
  | term
  | factor
  deriving DecidableEq, Repr

/-- The operators of a level. -/
def Expr.Level.has : Expr.Level → Kind → Bool
  | equality, .bangEqual | equality, .equalEqual => true
  | comparison, .greater | comparison, .greaterEqual => true
  | comparison, .less | comparison, .lessEqual => true
  | term, .minus | term, .plus => true
  | factor, .slash | factor, .star => true
  | _, _ => false

namespace Reading
variable {m : Type → Type} [Monad m] (tell : Halt → m Unit)

/-- Tells of a halt and stops. -/
def halt {α : Type} (x : Halt) : ExceptT Halt m α := do
  tell x
  throw x

/-- Takes one token of kind `k` and gives `a` for it. -/
def expect {α : Type} (k : Kind) (missing : Expectation) (a : α) : Reading m α
  | [] => halt tell ⟨missing, []⟩
  | t :: ts => if t.kind = k then return (a, ts) else halt tell ⟨missing, t :: ts⟩

/-- Prefix operators and operands; `nested` reads what stands in parentheses. -/
def unary (nested : Reading m Expr) : Reading m Expr
  | [] => halt tell ⟨.operand, []⟩
  | t :: ts =>
      match t.kind with
      | .bang | .minus => do
          let (e, rest) ← unary nested ts
          return (.unary t e, rest)
      | .falseWord => return (.literal (.bool false), ts)
      | .trueWord => return (.literal (.bool true), ts)
      | .nilWord => return (.literal .nil, ts)
      | .number | .string => return (.literal t.literal, ts)
      | .leftParen => do
          let (e, rest) ← nested ts
          expect tell .rightParen .closingParen (.grouping e) rest
      | _ => halt tell ⟨.operand, t :: ts⟩

/-- Operators of one level with their right operands, joined to `left`; at most
`n` of them. -/
def chain (l : Expr.Level) (operand : Reading m Expr) : Nat → Expr → Reading m Expr
  | 0, left, ts => return (left, ts)
  | _ + 1, left, [] => return (left, [])
  | n + 1, left, t :: ts =>
      if l.has t.kind then do
        let (right, rest) ← operand ts
        chain l operand n (.binary left t right) rest
      else return (left, t :: ts)

/-- Operands of one level, joined by its operators. -/
def level (n : Nat) (l : Expr.Level) (operand : Reading m Expr) : Reading m Expr := fun ts => do
  let (left, rest) ← operand ts
  chain l operand n left rest

/-- Expressions with parentheses nested less than `depth` deep and chains of at
most `n` operators. -/
def within (n : Nat) : Nat → Reading m Expr
  | 0 => fun ts => halt tell ⟨.operand, ts⟩
  | depth + 1 =>
      level n .equality
        (level n .comparison
          (level n .term
            (level n .factor (unary tell (within n depth)))))

/-- One expression, as far as it goes. -/
def expression : Reading m Expr := fun ts =>
  within tell ts.length (ts.length + 1) ts

/-- One expression that must reach to the end. -/
def onlyExpression : Reading m Expr := fun ts => do
  let (e, rest) ← expression tell ts
  match rest with
  | [] => return (e, [])
  | t :: rest => halt tell ⟨.endOfExpression, t :: rest⟩

/-- An expression and the semicolon behind it. -/
def closed (missing : Expectation) (f : Expr → Stmt) : Reading m Stmt := fun ts => do
  let (e, rest) ← expression tell ts
  expect tell .semicolon missing (f e) rest

/-- One statement. -/
def statement : Reading m Stmt
  | [] => closed tell .semicolonAfterExpression .expression []
  | t :: ts =>
      if t.kind = .printWord then closed tell .semicolonAfterValue .print ts
      else closed tell .semicolonAfterExpression .expression (t :: ts)

end Reading

/-- Tells nobody. -/
def silent : Halt → Id Unit := fun _ => return ()

namespace Expr

def readUnary (nested : Reader Expr) : Reader Expr := Reading.unary silent nested

def readChain (l : Level) (operand : Reader Expr) (n : Nat) (left : Expr) : Reader Expr :=
  Reading.chain (m := Id) l operand n left

def readLevel (n : Nat) (l : Level) (operand : Reader Expr) : Reader Expr :=
  Reading.level (m := Id) n l operand

def readWithin (n depth : Nat) : Reader Expr := Reading.within silent n depth

/-- Reads one expression, as far as it goes. -/
def read : Reader Expr := Reading.expression silent

/-- Reads one expression that must reach to the end. -/
def readOnly : Reader Expr := Reading.onlyExpression silent

/-- The expression that is all of some tokens. -/
def readAll (ts : List Token) : Except Halt Expr := (readOnly ts).map Prod.fst

end Expr

namespace Stmt

/-- What stands behind `print`. -/
def readPrint : Reader Stmt := Reading.closed silent .semicolonAfterValue print

/-- A statement without a keyword. -/
def readExpression : Reader Stmt := Reading.closed silent .semicolonAfterExpression expression

/-- Reads one statement. -/
def read : Reader Stmt := Reading.statement silent

end Stmt

end Lox

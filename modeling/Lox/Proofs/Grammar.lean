import Lox.Program

/-!
# The grammar

Expressions and statements as a grammar generates them, apart from any reader.

    statement   → "print" expression ";" | expression ";"
    expression  → equality
    equality    → comparison (("!=" | "==") comparison)*
    comparison  → term ((">" | ">=" | "<" | "<=") term)*
    term        → factor (("-" | "+") factor)*
    factor      → unary (("/" | "*") unary)*
    unary       → ("!" | "-") unary | primary
    primary     → NUMBER | STRING | "true" | "false" | "nil" | "(" expression ")"

A derivation carries the tree of the tokens it derives. The repetition behind
the first operand of a level is a phrase of its own; it knows the tree of what
stands in front of it and joins its operands to that tree one after the other,
so that a level folds to the left.
-/
namespace Lox

namespace Expr

/-- The operators between the operands of a level. -/
def Level.operators : Level → List Kind
  | equality => [.bangEqual, .equalEqual]
  | comparison => [.greater, .greaterEqual, .less, .lessEqual]
  | term => [.minus, .plus]
  | factor => [.slash, .star]

inductive Phrase where
  | level (l : Level)
  /-- The repetition of a level, behind tokens whose tree is `left`. -/
  | tail (l : Level) (left : Expr)
  | unary
  | primary

/-- An expression is a phrase of the loosest level. -/
abbrev Phrase.expression : Phrase := .level .equality

/-- What the operators of a level stand between. -/
def Level.operand : Level → Phrase
  | equality => .level comparison
  | comparison => .level term
  | term => .level factor
  | factor => .unary

/-- The tokens of a phrase and their tree. -/
inductive Derives : Phrase → List Token → Expr → Prop
  | level {l : Level} {w v : List Token} {left e : Expr} :
      Derives l.operand w left → Derives (.tail l left) v e → Derives (.level l) (w ++ v) e
  | stop {l : Level} {left : Expr} : Derives (.tail l left) [] left
  | join {l : Level} {left right e : Expr} {op : Token} {w v : List Token} :
      op.kind ∈ l.operators → Derives l.operand w right →
      Derives (.tail l (binary left op right)) v e →
      Derives (.tail l left) (op :: (w ++ v)) e
  | apply {op : Token} {w : List Token} {e : Expr} : op.kind ∈ [.bang, .minus] →
      Derives .unary w e → Derives .unary (op :: w) (unary op e)
  | operand {w : List Token} {e : Expr} : Derives .primary w e → Derives .unary w e
  | number {t : Token} : t.kind = .number → Derives .primary [t] (literal t.literal)
  | string {t : Token} : t.kind = .string → Derives .primary [t] (literal t.literal)
  | true {t : Token} : t.kind = .trueWord → Derives .primary [t] (literal (.bool true))
  | false {t : Token} : t.kind = .falseWord → Derives .primary [t] (literal (.bool false))
  | nil {t : Token} : t.kind = .nilWord → Derives .primary [t] (literal .nil)
  | group {opening closing : Token} {w : List Token} {e : Expr} :
      opening.kind = .leftParen → Derives .expression w e → closing.kind = .rightParen →
      Derives .primary (opening :: (w ++ [closing])) (grouping e)

end Expr

namespace Stmt

/-- The tokens of a statement and its tree. -/
inductive Derives : List Token → Stmt → Prop
  | print {word semicolon : Token} {w : List Token} {e : Expr} :
      word.kind = .printWord → Expr.Derives .expression w e → semicolon.kind = .semicolon →
      Derives (word :: (w ++ [semicolon])) (print e)
  | expression {semicolon : Token} {w : List Token} {e : Expr} :
      Expr.Derives .expression w e → semicolon.kind = .semicolon →
      Derives (w ++ [semicolon]) (expression e)

/-- Any number of statements, one behind the other. -/
inductive DerivesAll : List Token → List Stmt → Prop
  | nil : DerivesAll [] []
  | cons {w v : List Token} {s : Stmt} {ss : List Stmt} :
      Derives w s → DerivesAll v ss → DerivesAll (w ++ v) (s :: ss)

end Stmt

namespace Expr

theorem Level.has_iff (l : Level) (k : Kind) : l.has k = true ↔ k ∈ l.operators := by
  cases l <;> cases k <;> simp [has, operators]

/-- No operator stands at two levels. -/
theorem Level.eq_of_mem_operators {l l' : Level} {k : Kind} (h : k ∈ l.operators)
    (h' : k ∈ l'.operators) : l = l' := by
  revert k
  cases l <;> cases l' <;> decide

/-- Levels by how tightly their operators bind, loosest first. -/
def Level.rank : Level → Nat
  | equality => 0
  | comparison => 1
  | term => 2
  | factor => 3

/-- A phrase ranks with the loosest operators that it can hold outside of
parentheses. -/
def Phrase.rank : Phrase → Nat
  | level l => l.rank
  | tail l _ => l.rank
  | unary => 4
  | primary => 4

theorem Level.operand_rank (l : Level) : l.operand.rank = l.rank + 1 := by
  cases l <;> rfl

/-- No operator at the front of `rest` can continue the phrase in front of it. -/
def Phrase.EndsBefore (p : Phrase) (rest : List Token) : Prop :=
  ∀ t ∈ rest.head?, ∀ l : Level, p.rank ≤ l.rank → t.kind ∉ l.operators

theorem Phrase.endsBefore_nil (p : Phrase) : p.EndsBefore [] := by
  intro t ht
  simp at ht

/-- Brackets, semicolons and all that is no operator ends every phrase. -/
theorem Phrase.endsBefore_cons (p : Phrase) {t : Token} {rest : List Token}
    (h : ∀ l : Level, t.kind ∉ l.operators) : p.EndsBefore (t :: rest) := by
  intro u hu l _
  obtain rfl : t = u := by simpa using hu
  exact h l

/-- An operand ends in front of an operator of its level, and wherever the
level itself ends. -/
theorem Phrase.EndsBefore.operand {l : Level} {v rest : List Token} {left e : Expr}
    (hv : Derives (.tail l left) v e) (h : (Phrase.level l).EndsBefore rest) :
    l.operand.EndsBefore (v ++ rest) := by
  intro t ht l' hl' hmem
  rw [Level.operand_rank] at hl'
  cases hv with
  | stop => exact h t ht l' (by simp only [Phrase.rank]; omega) hmem
  | join hop =>
      obtain rfl : _ = t := by simpa using ht
      have same := Level.eq_of_mem_operators hop hmem
      subst same
      omega

end Expr

end Lox

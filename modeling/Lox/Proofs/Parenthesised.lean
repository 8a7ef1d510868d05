import Lox.Proofs.Pending
import Lox.Proofs.Typing

/-!
# Parenthesised expressions

Not every tree is one that the grammar gives to some tokens: a sum under a product,
or a difference on the right of another, needs parentheses, and these stay in the
tree. With parentheses around every operand all trees can be written down, if only
their operators can. What is read back is the tree with each operand in a group of
its own. A group has the value of what it encloses and is never to blame, so the
tree that is read has the value of the one that was written, or fails as it does.
-/
namespace Lox

namespace Value

/-- The tokens that stand for a value. A number or a string is the literal of its
token, which may be spelled in any way. -/
def WrittenAs : Value → Token → Prop
  | nil, t => t.kind = .nilWord
  | bool true, t => t.kind = .trueWord
  | bool false, t => t.kind = .falseWord
  | number x, t => t.kind = .number ∧ t.literal = number x
  | string s, t => t.kind = .string ∧ t.literal = string s

/-- One token for each value. -/
def token : Value → Token
  | nil => ⟨.nilWord, "nil", nil, 1⟩
  | bool true => ⟨.trueWord, "true", nil, 1⟩
  | bool false => ⟨.falseWord, "false", nil, 1⟩
  | number x => ⟨.number, (number x).text, number x, 1⟩
  | string s => ⟨.string, "\"" ++ s ++ "\"", string s, 1⟩

theorem writtenAs_token (v : Value) : v.WrittenAs v.token := by
  cases v with
  | nil => rfl
  | bool b => cases b <;> rfl
  | number x => exact ⟨rfl, rfl⟩
  | string s => exact ⟨rfl, rfl⟩

end Value

namespace Expr

/-- Trees with operators that the grammar has, unary and binary ones each in their
place. -/
def Expressible : Expr → Prop
  | literal _ => True
  | grouping e => e.Expressible
  | unary op e => op.kind ∈ [.bang, .minus] ∧ e.Expressible
  | binary l op r => (∃ level : Level, op.kind ∈ level.operators) ∧ l.Expressible ∧ r.Expressible

/-- A group around every operand of an operator. -/
def wrapped : Expr → Expr
  | literal v => literal v
  | grouping e => grouping e.wrapped
  | unary op e => unary op (grouping e.wrapped)
  | binary l op r => binary (grouping l.wrapped) op (grouping r.wrapped)

/-- The tokens `w` in parentheses. -/
inductive Enclosed (w : List Token) : List Token → Prop
  | intro {opening closing : Token} : opening.kind = .leftParen → closing.kind = .rightParen →
      Enclosed w (opening :: (w ++ [closing]))

/-- The tokens of a tree with parentheses around every operand. The operators are
those of the tree; parentheses and literals may be any that stand for themselves. -/
inductive Parenthesised : Expr → List Token → Prop
  | literal {v : Value} {t : Token} : v.WrittenAs t → Parenthesised (literal v) [t]
  | grouping {e : Expr} {w w' : List Token} :
      Parenthesised e w → Enclosed w w' → Parenthesised (grouping e) w'
  | unary {op : Token} {e : Expr} {w w' : List Token} :
      Parenthesised e w → Enclosed w w' → Parenthesised (unary op e) (op :: w')
  | binary {l r : Expr} {op : Token} {w w' v v' : List Token} :
      Parenthesised l w → Enclosed w w' → Parenthesised r v → Enclosed v v' →
      Parenthesised (binary l op r) (w' ++ op :: v')

def enclose (w : List Token) : List Token :=
  ⟨.leftParen, "(", .nil, 1⟩ :: (w ++ [⟨.rightParen, ")", .nil, 1⟩])

theorem enclosed_enclose (w : List Token) : Enclosed w (enclose w) := ⟨rfl, rfl⟩

/-- Parentheses around every operand, all on one line. -/
def parenthesised : Expr → List Token
  | literal v => [v.token]
  | grouping e => enclose e.parenthesised
  | unary op e => op :: enclose e.parenthesised
  | binary l op r => enclose l.parenthesised ++ op :: enclose r.parenthesised

theorem parenthesised_spec (e : Expr) : e.Parenthesised e.parenthesised := by
  induction e with
  | literal v => exact .literal v.writtenAs_token
  | grouping e ih => exact .grouping ih (enclosed_enclose _)
  | unary op e ih => exact .unary ih (enclosed_enclose _)
  | binary l op r ihl ihr =>
      exact .binary ihl (enclosed_enclose _) ihr (enclosed_enclose _)

/-- An operand without an operator behind it. -/
theorem Derives.alone {l : Level} {w : List Token} {e : Expr} (h : Derives l.operand w e) :
    Derives (.level l) w e := by
  have hlevel : Derives (.level l) (w ++ []) e := .level h .stop
  rwa [List.append_nil] at hlevel

theorem Derives.joined {l : Level} {w v : List Token} {left right : Expr} {op : Token}
    (hw : Derives l.operand w left) (hop : op.kind ∈ l.operators)
    (hv : Derives l.operand v right) :
    Derives (.level l) (w ++ op :: v) (binary left op right) := by
  have htail : Derives (.tail l left) (op :: (v ++ [])) (binary left op right) :=
    .join hop hv .stop
  rw [List.append_nil] at htail
  exact .level hw htail

/-- What binds most tightly is an operand at every level. -/
theorem Derives.operand_of_unary {w : List Token} {e : Expr} (h : Derives .unary w e)
    (l : Level) : Derives l.operand w e := by
  have hfactor : Derives (.level .factor) w e := Derives.alone h
  have hterm : Derives (.level .term) w e := Derives.alone hfactor
  have hcomparison : Derives (.level .comparison) w e := Derives.alone hterm
  cases l with
  | equality => exact hcomparison
  | comparison => exact hterm
  | term => exact hfactor
  | factor => exact h

/-- A phrase of any level is an expression. -/
theorem Derives.expression_of_level {l : Level} {w : List Token} {e : Expr}
    (h : Derives (.level l) w e) : Derives .expression w e := by
  have ofComparison (h : Derives (.level .comparison) w e) : Derives .expression w e :=
    Derives.alone h
  have ofTerm (h : Derives (.level .term) w e) : Derives .expression w e :=
    ofComparison (Derives.alone h)
  cases l with
  | equality => exact h
  | comparison => exact ofComparison h
  | term => exact ofTerm h
  | factor => exact ofTerm (Derives.alone h)

theorem Derives.expression_of_unary {w : List Token} {e : Expr} (h : Derives .unary w e) :
    Derives .expression w e :=
  Derives.alone (h.operand_of_unary .equality)

theorem Enclosed.derives {w w' : List Token} {e : Expr} (h : Enclosed w w')
    (hw : Derives .expression w e) : Derives .unary w' (Expr.grouping e) := by
  obtain ⟨hopening, hclosing⟩ := h
  exact .operand (.group hopening hw hclosing)

theorem derives_of_writtenAs {v : Value} {t : Token} (h : v.WrittenAs t) :
    Derives .primary [t] (literal v) := by
  cases v with
  | nil => exact .nil h
  | bool b =>
      cases b with
      | false => exact .false h
      | true => exact .true h
  | number x => exact h.2 ▸ .number h.1
  | string s => exact h.2 ▸ .string h.1

/-- The tokens of a parenthesised tree are an expression, and its tree is the
wrapped one. Each operand is enclosed, so it may stand next to an operator of any
level. -/
theorem Parenthesised.derives {e : Expr} {w : List Token} (h : e.Parenthesised w)
    (he : e.Expressible) : Derives .expression w e.wrapped := by
  induction h with
  | literal hv => exact (Derives.operand (derives_of_writtenAs hv)).expression_of_unary
  | grouping _ henc ih => exact (henc.derives (ih he)).expression_of_unary
  | unary _ henc ih =>
      obtain ⟨hop, he⟩ := he
      exact (Derives.apply hop (henc.derives (ih he))).expression_of_unary
  | binary _ hleft _ hright ihl ihr =>
      obtain ⟨⟨level, hop⟩, hl, hr⟩ := he
      have hw := (hleft.derives (ihl hl)).operand_of_unary level
      have hv := (hright.derives (ihr hr)).operand_of_unary level
      exact (hw.joined hop hv).expression_of_level

/-- No end token stands in an expression. -/
theorem Derives.kind_ne_eof {w : List Token} {e : Expr} (h : Derives .expression w e) {t : Token}
    (ht : t ∈ w) : t.kind ≠ .eof := by
  intro heof
  obtain ⟨u, v, rfl⟩ := List.append_of_mem ht
  obtain ⟨q, _, hrest⟩ := exists_foldlM_of_append (foldlM_of_expression h)
  rw [foldlM_cons_of_none (q.step_eof heof)] at hrest
  cases hrest

/-- A group adds nothing to a value and nothing to an error. -/
theorem eval_wrapped (e : Expr) : e.wrapped.eval = e.eval := by
  induction e with
  | literal v => rfl
  | grouping e ih => exact ih
  | unary op e ih => rw [wrapped, eval_unary, eval_unary, eval, ih]
  | binary l op r ihl ihr => rw [wrapped, eval_binary, eval_binary, eval, eval, ihl, ihr]

/-- Every tree of known operators can be written down with parentheses, and however
that is done, the tree that is read back differs in its groups only and means the
same. -/
theorem parenthesised_means_the_same (e : Expr) (he : e.Expressible) :
    e.Parenthesised e.parenthesised ∧
      ∀ (w : List Token) (stop : Token), e.Parenthesised w → stop.kind = .eof →
        ∃ s, TokenStream.ofTokens? (w ++ [stop]) = some s ∧
          (∀ r : Reporter, (r.parseExpression (Cursor.start s)).value.1 = some e.wrapped) ∧
          e.wrapped.eval = e.eval := by
  refine ⟨e.parenthesised_spec, fun w stop hw hstop => ?_⟩
  have hderives := hw.derives he
  refine ⟨⟨w, stop⟩, ?_, fun r => ?_, e.eval_wrapped⟩
  · exact TokenStream.ofTokens?_append_stop (fun _ ht => hderives.kind_ne_eof ht) hstop
  · exact (r.parseExpression_eq_some_iff ⟨w, stop⟩ e.wrapped).mpr hderives

/-- A comparison under a sign, without groups. -/
def negatedEquality : Expr :=
  unary ⟨.minus, "-", .nil, 1⟩
    (binary (literal .nil) ⟨.equalEqual, "==", .nil, 1⟩ (literal (.string "a")))

/-- The same with a group around every operand. -/
def negatedEqualityInGroups : Expr :=
  unary ⟨.minus, "-", .nil, 1⟩ (grouping (binary (grouping (literal .nil))
    ⟨.equalEqual, "==", .nil, 1⟩ (grouping (literal (.string "a")))))

/-- In `-((nil) == ("a"))` the negation applies to the comparison, and rejects its
value as it does without the inner groups. -/
theorem parenthesised_means_the_same_negation :
    negatedEquality.Expressible ∧
      Derives .expression
        [⟨.minus, "-", .nil, 1⟩, ⟨.leftParen, "(", .nil, 1⟩, ⟨.leftParen, "(", .nil, 1⟩,
          ⟨.nilWord, "nil", .nil, 1⟩, ⟨.rightParen, ")", .nil, 1⟩, ⟨.equalEqual, "==", .nil, 1⟩,
          ⟨.leftParen, "(", .nil, 1⟩, ⟨.string, "\"a\"", .string "a", 1⟩,
          ⟨.rightParen, ")", .nil, 1⟩, ⟨.rightParen, ")", .nil, 1⟩]
        negatedEqualityInGroups ∧
      negatedEqualityInGroups.eval = .error ⟨⟨.minus, "-", .nil, 1⟩, .operandNotNumber⟩ := by
  have he : negatedEquality.Expressible :=
    ⟨.tail _ (.head _), ⟨.equality, .tail _ (.head _)⟩, trivial, trivial⟩
  obtain ⟨hwriting, hreads⟩ := parenthesised_means_the_same _ he
  obtain ⟨s, hs, htree, heval⟩ := hreads _ ⟨.eof, "", .nil, 1⟩ hwriting rfl
  obtain rfl := Option.some.inj hs
  exact ⟨he, (Reporter.fresh.parseExpression_eq_some_iff _ _).mp (htree Reporter.fresh),
    heval.trans rfl⟩

end Expr

end Lox

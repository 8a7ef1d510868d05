import Lox.Proofs.Safety

/-!
# Types decide about failure

Values are of four types. An operator looks at the types of its operands when it
decides whether to reject them, and at nothing else; the type of its result
depends on nothing else either. Two evaluations of one expression with other
literals of the same types therefore stay in step, and end with values of the
same type or with the same error. This covers operators that no text can give,
division by zero, and operands such as infinities and NaN.
-/
namespace Lox

namespace Value

/-- Values of the same type. -/
inductive SameType : Value → Value → Prop
  | nil : SameType nil nil
  | bool (a b : Bool) : SameType (bool a) (bool b)
  | number (x y : Float) : SameType (number x) (number y)
  | string (s t : String) : SameType (string s) (string t)

/-- Two outcomes that differ in a value at most, and not in its type. -/
inductive InStep : Except RuntimeError Value → Except RuntimeError Value → Prop
  | ok {v w : Value} : SameType v w → InStep (.ok v) (.ok w)
  | error (x : RuntimeError) : InStep (.error x) (.error x)

theorem InStep.bind {r r' : Except RuntimeError Value} {k k' : Value → Except RuntimeError Value}
    (h : InStep r r') (hk : ∀ v w, SameType v w → InStep (k v) (k' w)) :
    InStep (r.bind k) (r'.bind k') := by
  cases h with
  | ok htype => exact hk _ _ htype
  | error x => exact .error x

theorem applyUnary_inStep (op : Token) {v v' : Value} (h : SameType v v') :
    InStep (v.applyUnary op) (v'.applyUnary op) := by
  unfold applyUnary
  cases op.kind with
  | bang => exact .ok (.bool _ _)
  | minus =>
      cases h with
      | number x x' => exact .ok (.number _ _)
      | _ => exact .error _
  | _ => exact .error _

theorem add_inStep (op : Token) {v v' w w' : Value} (hv : SameType v v') (hw : SameType w w') :
    InStep (v.add op w) (v'.add op w') := by
  cases hv with
  | number x x' =>
      cases hw with
      | number y y' => exact .ok (.number _ _)
      | _ => exact .error _
  | string s s' =>
      cases hw with
      | string t t' => exact .ok (.string _ _)
      | _ => exact .error _
  | _ => exact .error _

/-- Whether there is an operator for two numbers, and whether it gives a number
or a truth value, does not depend on the numbers. -/
theorem applyNumeric_numbers_inStep (op : Token) (x x' y y' : Float) :
    InStep ((number x).applyNumeric op (number y)) ((number x').applyNumeric op (number y')) := by
  unfold applyNumeric
  cases op.kind with
  | minus | star | slash => exact .ok (.number _ _)
  | greater | greaterEqual | less | lessEqual => exact .ok (.bool _ _)
  | _ => exact .error _

theorem applyNumeric_inStep (op : Token) {v v' w w' : Value} (hv : SameType v v')
    (hw : SameType w w') : InStep (v.applyNumeric op w) (v'.applyNumeric op w') := by
  cases hv with
  | number x x' =>
      cases hw with
      | number y y' => exact applyNumeric_numbers_inStep op x x' y y'
      | _ => exact .error _
  | _ => exact .error _

theorem applyBinary_inStep (op : Token) {v v' w w' : Value} (hv : SameType v v')
    (hw : SameType w w') : InStep (v.applyBinary op w) (v'.applyBinary op w') := by
  unfold applyBinary
  split
  · exact .ok (.bool _ _)
  · exact .ok (.bool _ _)
  · exact add_inStep op hv hw
  · exact applyNumeric_inStep op hv hw

end Value

namespace Expr
open Value

theorem eval_unary (op : Token) (e : Expr) :
    (unary op e).eval = e.eval.bind fun v => v.applyUnary op := by
  rw [eval]
  cases e.eval <;> rfl

theorem eval_binary (l : Expr) (op : Token) (r : Expr) :
    (binary l op r).eval = l.eval.bind fun v => r.eval.bind fun w => v.applyBinary op w := by
  rw [eval]
  cases l.eval with
  | error x => rfl
  | ok v => cases r.eval <;> rfl

/-- Expressions of the same shape and with the same operators, whose literals are
of the same types. -/
inductive Alike : Expr → Expr → Prop
  | literal {v w : Value} : SameType v w → Alike (literal v) (literal w)
  | grouping {e e' : Expr} : Alike e e' → Alike (grouping e) (grouping e')
  | unary {op : Token} {e e' : Expr} : Alike e e' → Alike (unary op e) (unary op e')
  | binary {l l' r r' : Expr} {op : Token} : Alike l l' → Alike r r' →
      Alike (binary l op r) (binary l' op r')

theorem Alike.eval_inStep {e e' : Expr} (h : Alike e e') : InStep e.eval e'.eval := by
  induction h with
  | literal htype => exact .ok htype
  | grouping _ ih => exact ih
  | @unary op e e' _ ih =>
      rw [eval_unary, eval_unary]
      apply ih.bind
      intro v v' hv
      exact applyUnary_inStep op hv
  | @binary l l' r r' op _ _ ihl ihr =>
      -- A right operand is reached behind a left one that has a value, so either
      -- both runs reach it or both have stopped with the error of the left one.
      rw [eval_binary, eval_binary]
      apply ihl.bind
      intro v v' hv
      apply ihr.bind
      intro w w' hw
      exact applyBinary_inStep op hv hw

/-- The types of the literals decide whether an evaluation fails, and where. Under
checks it does not fail in any other way. -/
theorem eval_decided_by_types (e e' : Expr) (h : Alike e e') :
    ((∃ v v', e.eval = .ok v ∧ e'.eval = .ok v' ∧ SameType v v') ∨
      ∃ x, e.eval = .error x ∧ e'.eval = .error x) ∧
    e.evalChecked = e.eval.mapError .runtime ∧
    e'.evalChecked = e'.eval.mapError .runtime := by
  refine ⟨?_, e.evalChecked_eq, e'.evalChecked_eq⟩
  have hsteps := h.eval_inStep
  generalize e.eval = r at hsteps ⊢
  generalize e'.eval = r' at hsteps ⊢
  cases hsteps with
  | ok htype => exact .inl ⟨_, _, rfl, rfl, htype⟩
  | error x => exact .inr ⟨x, rfl, rfl⟩

/-- A quotient that is compared with a string. -/
def quotientBelow (x y : Float) (s : String) : Expr :=
  binary (binary (literal (.number x)) ⟨.slash, "/", .nil, 1⟩ (literal (.number y)))
    ⟨.less, "<", .nil, 2⟩ (literal (.string s))

/-- A quotient by zero and one by two are both numbers, so the comparison with a
string is to blame in either case. -/
theorem eval_decided_by_types_quotients :
    Alike (quotientBelow 1 0 "") (quotientBelow 3 2 "b") ∧
      (quotientBelow 3 2 "b").eval = .error ⟨⟨.less, "<", .nil, 2⟩, .operandsNotNumbers⟩ := by
  have h : Alike (quotientBelow 1 0 "") (quotientBelow 3 2 "b") :=
    .binary (.binary (.literal (.number _ _)) (.literal (.number _ _))) (.literal (.string _ _))
  have hfails : (quotientBelow 1 0 "").eval =
      .error ⟨⟨.less, "<", .nil, 2⟩, .operandsNotNumbers⟩ := rfl
  refine ⟨h, ?_⟩
  rcases (eval_decided_by_types _ _ h).1 with ⟨v, v', hv, _⟩ | ⟨x, hx, hx'⟩
  · rw [hfails] at hv
    cases hv
  · rw [hx', ← hx, hfails]

end Expr

end Lox

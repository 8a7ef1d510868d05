import Lox.Proofs.Blame
import Lox.Proofs.Typing

/-!
# Evaluation in post-order

An expression can be written down in post-order, as instructions for a machine with
a stack of values: its literals are pushed, its operators are applied to what is on
top, and groupings leave no trace. Evaluation does what that machine does. It ends
with the one value that the machine is left with, or with the error of the first
operator that rejects its operands. Up to there it has applied the operators that
the machine has, in the same order, and it applies none behind it.
-/
namespace Lox

inductive Instruction where
  | push (v : Value)
  | unary (op : Token)
  | binary (op : Token)
  deriving DecidableEq

/-- Why a machine stops before its instructions are at an end. -/
inductive Jam where
  | rejected (x : RuntimeError)
  /-- There are fewer values on the stack than an operator takes. -/
  | underflow
  deriving DecidableEq

namespace Instruction

/-- The stack behind an instruction. The right operand of two is on top. -/
def step : Instruction → List Value → Except Jam (List Value)
  | push v, stack => .ok (v :: stack)
  | unary op, v :: stack =>
      match v.applyUnary op with
      | .ok u => .ok (u :: stack)
      | .error x => .error (.rejected x)
  | binary op, w :: v :: stack =>
      match v.applyBinary op w with
      | .ok u => .ok (u :: stack)
      | .error x => .error (.rejected x)
  | _, _ => .error .underflow

/-- The stack behind some instructions, unless one of them stops the machine. -/
def run : List Instruction → List Value → Except Jam (List Value)
  | [], stack => .ok stack
  | i :: is, stack =>
      match i.step stack with
      | .ok stack' => run is stack'
      | .error j => .error j

def operator? : Instruction → Option Token
  | push _ => none
  | unary op => some op
  | binary op => some op

/-- The operators among some instructions, in order. -/
def operators (is : List Instruction) : List Token := is.filterMap operator?

theorem operators_append (is js : List Instruction) :
    operators (is ++ js) = operators is ++ operators js :=
  List.filterMap_append

variable {is js : List Instruction} {stack mid : List Value}

theorem run_append_of_ok (h : run is stack = .ok mid) (js : List Instruction) :
    run (is ++ js) stack = run js mid := by
  induction is generalizing stack with
  | nil =>
      cases h
      rfl
  | cons i is ih =>
      rw [run] at h
      rw [List.cons_append, run]
      cases hs : i.step stack with
      | ok stack' =>
          rw [hs] at h
          exact ih h
      | error j =>
          rw [hs] at h
          cases h

/-- The machine goes through `before`, and then `i` rejects its operands. -/
def Stops (is : List Instruction) (stack : List Value) (before : List Instruction)
    (i : Instruction) (x : RuntimeError) : Prop :=
  ∃ after mid, is = before ++ i :: after ∧ run before stack = .ok mid ∧
    i.step mid = .error (.rejected x)

variable {before : List Instruction} {i : Instruction} {x : RuntimeError}

theorem stops_here (h : i.step stack = .error (.rejected x)) : Stops [i] stack [] i x :=
  ⟨[], stack, rfl, rfl, h⟩

/-- What stands behind the instruction at which the machine stops plays no part. -/
theorem Stops.append_right (h : Stops is stack before i x) (js : List Instruction) :
    Stops (is ++ js) stack before i x := by
  obtain ⟨after, mid, rfl, hrun, hstep⟩ := h
  exact ⟨after ++ js, mid, by simp, hrun, hstep⟩

theorem Stops.append_left (hrun : run is stack = .ok mid) (h : Stops js mid before i x) :
    Stops (is ++ js) stack (is ++ before) i x := by
  obtain ⟨after, last, rfl, hbefore, hstep⟩ := h
  refine ⟨after, last, by simp, ?_, hstep⟩
  rw [run_append_of_ok hrun, hbefore]

theorem Stops.run_eq (h : Stops is stack before i x) : run is stack = .error (.rejected x) := by
  obtain ⟨after, mid, rfl, hrun, hstep⟩ := h
  rw [run_append_of_ok hrun, run, hstep]

end Instruction

namespace Value
variable {op : Token} {v w : Value} {x : RuntimeError}

theorem applyUnary_token (h : v.applyUnary op = .error x) : x.token = op := by
  unfold applyUnary at h
  split at h <;> cases h <;> rfl

theorem applyNumeric_token (h : v.applyNumeric op w = .error x) : x.token = op := by
  unfold applyNumeric at h
  split at h
  · split at h <;> cases h
    rfl
  · cases h
    rfl

theorem applyBinary_token (h : v.applyBinary op w = .error x) : x.token = op := by
  unfold applyBinary at h
  split at h
  · cases h
  · cases h
  · rw [add_error h]
  · exact applyNumeric_token h

end Value

namespace Expr
open Instruction

/-- The instructions of an expression: operands from left to right, and behind them
their operator. -/
def postOrder : Expr → List Instruction
  | literal v => [.push v]
  | grouping e => e.postOrder
  | unary op e => e.postOrder ++ [.unary op]
  | binary l op r => l.postOrder ++ (r.postOrder ++ [.binary op])

/-- An outcome, and the operators applied on the way to it. -/
structure Logged where
  applied : List Token
  outcome : Except RuntimeError Value

/-- Goes on with the value, if there is one. -/
def Logged.andThen (m : Logged) (k : Value → Logged) : Logged :=
  match m.outcome with
  | .ok v => ⟨m.applied ++ (k v).applied, (k v).outcome⟩
  | .error _ => m

/-- Evaluation that takes note of each operator when it is applied. -/
def evalLogged : Expr → Logged
  | literal v => ⟨[], .ok v⟩
  | grouping e => e.evalLogged
  | unary op e => e.evalLogged.andThen fun v => ⟨[op], v.applyUnary op⟩
  | binary l op r =>
      l.evalLogged.andThen fun v => r.evalLogged.andThen fun w => ⟨[op], v.applyBinary op w⟩

theorem Logged.outcome_andThen (m : Logged) (k : Value → Logged) :
    (m.andThen k).outcome = m.outcome.bind fun v => (k v).outcome := by
  unfold andThen
  cases h : m.outcome with
  | ok v => rfl
  | error x => exact h

/-- Taking notes does not change the outcome. -/
theorem outcome_evalLogged (e : Expr) : e.evalLogged.outcome = e.eval := by
  induction e with
  | literal v => rfl
  | grouping e ih => exact ih
  | unary op e ih => rw [evalLogged, Logged.outcome_andThen, ih, eval_unary]
  | binary l op r ihl ihr =>
      simp only [evalLogged, Logged.outcome_andThen, ihl, ihr, eval_binary]

/-- With `is` on `stack` the machine comes to the same outcome and applies the same
operators; a value is left on top of `base`. -/
inductive Logged.Runs (is : List Instruction) (stack base : List Value) : Logged → Prop
  | ok {v : Value} : run is stack = .ok (v :: base) → Runs is stack base ⟨operators is, .ok v⟩
  | error {x : RuntimeError} {before : List Instruction} {i : Instruction} :
      Stops is stack before i x → i.operator? = some x.token →
      Runs is stack base ⟨operators (before ++ [i]), .error x⟩

theorem Logged.Runs.andThen {is js : List Instruction} {stack mid base : List Value} {m : Logged}
    {k : Value → Logged} (hm : Runs is stack mid m) (hk : ∀ v, Runs js (v :: mid) base (k v)) :
    Runs (is ++ js) stack base (m.andThen k) := by
  cases hm with
  | error hstops htoken => exact .error (hstops.append_right js) htoken
  | @ok v hrun =>
      have hv := hk v
      change Runs (is ++ js) stack base ⟨operators is ++ (k v).applied, (k v).outcome⟩
      generalize k v = m at hv ⊢
      cases hv with
      | ok hjs =>
          rw [← operators_append]
          exact .ok ((run_append_of_ok hrun js).trans hjs)
      | error hstops htoken =>
          rw [← operators_append, ← List.append_assoc]
          exact .error (hstops.append_left hrun) htoken

/-- An operator that gives `r` and, if that is an error, is to blame for it. -/
theorem runs_applied {i : Instruction} {op : Token} {stack base : List Value}
    {r : Except RuntimeError Value} (hop : i.operator? = some op)
    (hstep : i.step stack =
      match r with
      | .ok u => .ok (u :: base)
      | .error x => .error (.rejected x))
    (htoken : ∀ x, r = .error x → x.token = op) : Logged.Runs [i] stack base ⟨[op], r⟩ := by
  have happlied : operators [i] = [op] := by simp [operators, hop]
  rw [← happlied]
  cases r with
  | ok u => exact .ok (by simp only [run, hstep])
  | error x => exact .error (stops_here hstep) (by rw [hop, htoken x rfl])

/-- Each subexpression leaves its value on the stack that it finds. -/
theorem evalLogged_runs (e : Expr) (stack : List Value) :
    Logged.Runs e.postOrder stack stack e.evalLogged := by
  induction e generalizing stack with
  | literal v => exact .ok rfl
  | grouping e ih => exact ih stack
  | unary op e ih =>
      refine (ih stack).andThen fun v => ?_
      exact runs_applied rfl rfl fun x => Value.applyUnary_token
  | binary l op r ihl ihr =>
      refine (ihl stack).andThen fun v => (ihr (v :: stack)).andThen fun w => ?_
      exact runs_applied rfl rfl fun x => Value.applyBinary_token

/-- Evaluation runs the post-order of an expression. Either every operator succeeds and
one value is left, or the first one that rejects its operands gives the error, all
those in front of it having been applied and none behind it. -/
theorem eval_in_post_order (e : Expr) :
    e.evalLogged.outcome = e.eval ∧ e.evalChecked = e.eval.mapError .runtime ∧
      ((∃ v, e.eval = .ok v ∧ run e.postOrder [] = .ok [v] ∧
          e.evalLogged.applied = operators e.postOrder) ∨
        ∃ x before i, e.eval = .error x ∧ run e.postOrder [] = .error (.rejected x) ∧
          Stops e.postOrder [] before i x ∧ i.operator? = some x.token ∧
          e.evalLogged.applied = operators (before ++ [i])) := by
  refine ⟨e.outcome_evalLogged, e.evalChecked_eq, ?_⟩
  have hruns := e.evalLogged_runs []
  rw [← e.outcome_evalLogged]
  generalize e.evalLogged = m at hruns ⊢
  cases hruns with
  | @ok v hrun => exact .inl ⟨v, rfl, hrun, rfl⟩
  | @error x before i hstops htoken =>
      exact .inr ⟨x, before, i, rfl, hstops.run_eq, hstops, htoken, rfl⟩

end Expr

end Lox

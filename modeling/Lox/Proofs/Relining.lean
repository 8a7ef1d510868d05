import Lox.Proofs.Execution

/-!
# Moving lines

No decision depends on a line. If one function moves the lines of all tokens,
the same things are read, printed and reported, and their lines are moved by the
same function. The proofs follow the readers and the evaluator part by part; a
reader is said to carry lines if moving them before it reads is the same as
moving them in what it gives and leaves.
-/
namespace Lox

/-- The same token on another line. -/
def Token.reline (f : Nat → Nat) (t : Token) : Token := { t with line := f t.line }

@[simp] theorem Token.kind_reline (f : Nat → Nat) (t : Token) : (t.reline f).kind = t.kind := rfl

def Expr.reline (f : Nat → Nat) : Expr → Expr
  | literal v => literal v
  | grouping e => grouping (e.reline f)
  | unary op e => unary (op.reline f) (e.reline f)
  | binary l op r => binary (l.reline f) (op.reline f) (r.reline f)

def Stmt.reline (f : Nat → Nat) : Stmt → Stmt
  | expression e => expression (e.reline f)
  | print e => print (e.reline f)

def Halt.reline (f : Nat → Nat) (h : Halt) : Halt := ⟨h.expected, h.rest.map (Token.reline f)⟩

def SyntaxError.reline (f : Nat → Nat) (e : SyntaxError) : SyntaxError :=
  ⟨e.expected, e.token.reline f⟩

def LexicalError.reline (f : Nat → Nat) (e : LexicalError) : LexicalError := ⟨e.flaw, f e.line⟩

def RuntimeError.reline (f : Nat → Nat) (e : RuntimeError) : RuntimeError :=
  ⟨e.token.reline f, e.rejection⟩

def Segment.reline (f : Nat → Nat) : Segment → Segment
  | statement s => statement (s.reline f)
  | error e => error (e.reline f)

def Program.reline (f : Nat → Nat) (p : Program) : Program :=
  ⟨p.statements.map (Stmt.reline f), p.errors.map (SyntaxError.reline f)⟩

namespace Reader
variable {α β : Type} {f : Nat → Nat}

/-- An outcome with its lines moved; `g` moves them in what was read. -/
def relined (f : Nat → Nat) (g : α → α) :
    Except Halt (α × List Token) → Except Halt (α × List Token)
  | .ok (a, rest) => .ok (g a, rest.map (Token.reline f))
  | .error h => .error (h.reline f)

/-- A reader that carries lines. -/
def Carries (f : Nat → Nat) (g : α → α) (r : Reader α) : Prop :=
  ∀ ts, r (ts.map (Token.reline f)) = relined f g (r ts)

/-- The second reader may depend on what was read before, with and without its
lines moved. -/
theorem andThen_relined {r : Reader α} {k k' : α → Reader β} {g : α → α} {g' : β → β}
    {ts : List Token} (hr : r (ts.map (Token.reline f)) = relined f g (r ts))
    (hk : ∀ a rest, k' (g a) (rest.map (Token.reline f)) = relined f g' (k a rest)) :
    andThen r k' (ts.map (Token.reline f)) = relined f g' (andThen r k ts) := by
  cases h : r ts with
  | error x =>
      rw [h] at hr
      rw [andThen_of_error h, andThen_of_error hr]
      rfl
  | ok x =>
      rw [h] at hr
      rw [andThen_of_ok h, andThen_of_ok hr]
      exact hk x.1 x.2

theorem expect_relined (k : Kind) (missing : Expectation) (g : α → α) (a : α) (ts : List Token) :
    expect k missing (g a) (ts.map (Token.reline f)) = relined f g (expect k missing a ts) := by
  cases ts with
  | nil => rfl
  | cons t ts =>
      rw [List.map_cons, expect_cons, expect_cons, Token.kind_reline]
      split <;> rfl

end Reader

namespace Expr
open Reader
variable {f : Nat → Nat}

theorem start_reline (t : Token) : start (t.reline f) = start t := rfl

theorem readUnary_carries {nested : Reader Expr} (hn : Carries f (reline f) nested) :
    Carries f (reline f) (readUnary nested) := by
  intro ts
  induction ts with
  | nil =>
      rw [List.map_nil, readUnary_nil]
      rfl
  | cons t ts ih =>
      rw [List.map_cons, readUnary_cons, readUnary_cons, start_reline]
      cases start t with
      | operator => exact andThen_relined ih fun e rest => rfl
      | value v => rfl
      | opening =>
          apply andThen_relined (hn ts)
          intro e rest
          exact expect_relined _ _ (reline f) (grouping e) rest
      | refused => rfl

theorem readChain_carries {l : Level} {operand : Reader Expr}
    (ho : Carries f (reline f) operand) (n : Nat) (left : Expr) (ts : List Token) :
    readChain l operand n (left.reline f) (ts.map (Token.reline f)) =
      relined f (reline f) (readChain l operand n left ts) := by
  -- The tree read so far is moved along, so this is more than `Carries`.
  induction n generalizing left ts with
  | zero =>
      rw [readChain_zero, readChain_zero]
      rfl
  | succ n ih =>
      cases ts with
      | nil =>
          rw [List.map_nil, readChain_nil, readChain_nil]
          rfl
      | cons t ts =>
          rw [List.map_cons]
          cases h : l.has t.kind with
          | false =>
              have h' : l.has (t.reline f).kind = false := by rwa [Token.kind_reline]
              rw [readChain_of_not_has h, readChain_of_not_has h']
              rfl
          | true =>
              have h' : l.has (t.reline f).kind = true := by rwa [Token.kind_reline]
              rw [readChain_of_has h, readChain_of_has h']
              apply andThen_relined (ho ts)
              intro right rest
              exact ih (binary left t right) rest

theorem readWithin_carries (n depth : Nat) : Carries f (reline f) (readWithin n depth) := by
  refine readWithin_induct (P := fun _ r => Carries f (reline f) r) ?_ ?_ ?_ depth
  · intro ts
    rw [readWithin_zero, readWithin_zero]
    rfl
  · intro nested hn
    exact readUnary_carries hn
  · intro l operand ho ts
    rw [readLevel_eq]
    exact andThen_relined (ho ts) (readChain_carries ho n)

theorem read_carries : Carries f (reline f) read := by
  intro ts
  rw [read_eq, read_eq, List.length_map]
  exact readWithin_carries _ _ ts

end Expr

namespace Stmt
open Reader
variable {f : Nat → Nat}

theorem readPrint_carries : Carries f (reline f) readPrint := by
  intro ts
  rw [readPrint_eq]
  apply andThen_relined (Expr.read_carries ts)
  intro e rest
  exact expect_relined _ _ (reline f) (print e) rest

theorem readExpression_carries : Carries f (reline f) readExpression := by
  intro ts
  rw [readExpression_eq]
  apply andThen_relined (Expr.read_carries ts)
  intro e rest
  exact expect_relined _ _ (reline f) (expression e) rest

theorem read_carries : Carries f (reline f) read := by
  intro ts
  cases ts with
  | nil => exact readExpression_carries []
  | cons t ts =>
      rw [List.map_cons, read_cons, read_cons, Token.kind_reline]
      split
      · exact readPrint_carries ts
      · exact readExpression_carries (t :: ts)

end Stmt

namespace Segment
variable {f : Nat → Nat}

theorem skip_reline (before : Kind) (ts : List Token) :
    skip before (ts.map (Token.reline f)) = (skip before ts).map (Token.reline f) := by
  induction ts generalizing before with
  | nil => rfl
  | cons t ts ih =>
      rw [List.map_cons, skip, skip, Token.kind_reline]
      split
      · rfl
      · exact ih t.kind

theorem resume_reline (ts rest : List Token) :
    resume (ts.map (Token.reline f)) (rest.map (Token.reline f)) =
      (resume ts rest).map (Token.reline f) := by
  unfold resume
  rw [List.length_map, List.length_map, ← List.map_drop]
  cases ts.drop (ts.length - rest.length - 1) with
  | nil => rfl
  | cons t us => exact skip_reline t.kind us

theorem error_reline (stop : Token) (h : Halt) :
    (h.reline f).error (stop.reline f) = (h.error stop).reline f := by
  obtain ⟨expected, rest⟩ := h
  cases rest <;> rfl

theorem all_reline (stop : Token) (ts : List Token) :
    all (stop.reline f) (ts.map (Token.reline f)) = (all stop ts).map (reline f) := by
  induction ts using Segment.induct with
  | nil => rfl
  | ok ts s rest hr ih =>
      have hr' := Stmt.read_carries (f := f) ts
      rw [hr] at hr'
      rw [all_of_ok hr, all_of_ok hr', ih]
      rfl
  | error ts x hne hr ih =>
      -- Boundaries are found by kinds, so reading goes on at the same place.
      have hr' := Stmt.read_carries (f := f) ts
      rw [hr] at hr'
      have hne' : ts.map (Token.reline f) ≠ [] := by simpa using hne
      rw [all_of_error hne hr, all_of_error hne' hr', error_reline]
      have hresume := resume_reline (f := f) ts x.rest
      simp only [Halt.reline, hresume, ih, List.map_cons, reline]

end Segment

namespace Program
variable {f : Nat → Nat}

theorem ofSegments_reline (xs : List Segment) :
    ofSegments (xs.map (Segment.reline f)) = (ofSegments xs).reline f := by
  induction xs with
  | nil => rfl
  | cons x xs ih =>
      cases x with
      | statement s =>
          have h := ofSegments_statement (s.reline f) (xs.map (Segment.reline f))
          rw [ih] at h
          exact h
      | error e =>
          have h := ofSegments_error (e.reline f) (xs.map (Segment.reline f))
          rw [ih] at h
          exact h

/-- The program of tokens on other lines. -/
theorem ofStream_reline (body : List Token) (stop : Token) :
    ofStream ⟨body.map (Token.reline f), stop.reline f⟩ = (ofStream ⟨body, stop⟩).reline f := by
  have h := congrArg ofSegments (Segment.all_reline (f := f) stop body)
  rw [ofSegments_reline] at h
  exact h

end Program

namespace Value
variable {f : Nat → Nat}

theorem applyUnary_reline (op : Token) (v : Value) :
    v.applyUnary (op.reline f) = (v.applyUnary op).mapError (RuntimeError.reline f) := by
  unfold applyUnary
  rw [Token.kind_reline]
  split <;> rfl

theorem add_reline (op : Token) (v w : Value) :
    add (op.reline f) v w = (add op v w).mapError (RuntimeError.reline f) := by
  unfold add
  split <;> rfl

theorem applyNumeric_reline (op : Token) (v w : Value) :
    applyNumeric (op.reline f) v w = (applyNumeric op v w).mapError (RuntimeError.reline f) := by
  unfold applyNumeric
  rw [Token.kind_reline]
  split
  · split <;> rfl
  · rfl

theorem applyBinary_reline (op : Token) (v w : Value) :
    v.applyBinary (op.reline f) w = (v.applyBinary op w).mapError (RuntimeError.reline f) := by
  unfold applyBinary
  rw [Token.kind_reline]
  split
  · rfl
  · rfl
  · exact add_reline op v w
  · exact applyNumeric_reline op v w

end Value

namespace Expr
variable {f : Nat → Nat}

/-- Operators move their lines into the errors and do nothing else with them. -/
theorem eval_reline (e : Expr) :
    (e.reline f).eval = e.eval.mapError (RuntimeError.reline f) := by
  induction e with
  | literal v => rfl
  | grouping e ih => exact ih
  | unary op e ih =>
      rw [reline, eval, eval, ih]
      cases e.eval with
      | error x => rfl
      | ok v => exact Value.applyUnary_reline op v
  | binary l op r ihl ihr =>
      rw [reline, eval, eval, ihl, ihr]
      cases l.eval with
      | error x => rfl
      | ok v =>
          cases r.eval with
          | error x => rfl
          | ok w => exact Value.applyBinary_reline op v w

end Expr

namespace Stmt
variable {f : Nat → Nat}

theorem performAll_reline (ss : List Stmt) :
    performAll (ss.map (reline f)) =
      ((performAll ss).1, (performAll ss).2.map (RuntimeError.reline f)) := by
  induction ss with
  | nil => rfl
  | cons s ss ih =>
      have hexpr : (s.reline f).expr = s.expr.reline f := by cases s <;> rfl
      have heval := Expr.eval_reline (f := f) s.expr
      rw [← hexpr] at heval
      rw [List.map_cons]
      cases h : s.expr.eval with
      | error x =>
          rw [h] at heval
          rw [performAll_of_error h, performAll_of_error heval]
          rfl
      | ok v =>
          rw [h] at heval
          rw [performAll_of_ok h, performAll_of_ok heval, ih]
          cases s <;> rfl

end Stmt

namespace Report

/-- Reports follow tokens to other lines. -/
def Follows (f : Nat → Nat) (g : Report → Report) : Prop :=
  ∀ (line : Nat) (place message : String), g ⟨line, place, message⟩ = ⟨f line, place, message⟩

end Report

namespace Account
variable {f : Nat → Nat} {g : Report → Report}

/-- The account of a text whose tokens and errors are on other lines. -/
theorem of_reline (hg : Report.Follows f g) (reports : List Report) (ss : List Stmt) :
    of (reports.map g) (ss.map (Stmt.reline f)) =
      ⟨(of reports ss).outcome, (of reports ss).output, (of reports ss).reports.map g⟩ := by
  have hreport (x : RuntimeError) : (x.reline f).report = g x.report := (hg _ _ _).symm
  cases reports with
  | cons x xs => rfl
  | nil =>
      rw [List.map_nil, of, of, Stmt.performAll_reline]
      cases (Stmt.performAll ss).2 with
      | none => rfl
      | some x =>
          simp only [Option.map_some, Option.toList_some, List.map_cons, List.map_nil, hreport]
          rfl

end Account

namespace Scan
variable {f : Nat → Nat} {g : Report → Report}

/-- The reports on a text whose tokens and errors are on other lines. -/
theorem reports_reline (hg : Report.Follows f g) (errors : List LexicalError) (p : Program) :
    (errors.map (LexicalError.reline f)).map LexicalError.report ++
        (p.reline f).errors.map SyntaxError.report =
      (errors.map LexicalError.report ++ p.errors.map SyntaxError.report).map g := by
  have hlex (e : LexicalError) : (e.reline f).report = g e.report := (hg _ _ _).symm
  have hsyn (e : SyntaxError) : (e.reline f).report = g e.report := (hg _ _ _).symm
  rw [List.map_append, Program.reline, List.map_map, List.map_map, List.map_map, List.map_map]
  congr 1
  · exact List.map_congr_left fun e _ => hlex e
  · exact List.map_congr_left fun e _ => hsyn e

end Scan

end Lox

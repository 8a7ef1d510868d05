import Lox.Proofs.Ahead

/-!
# Errors told where they are found

Reading stops deep inside a statement or an expression, and a reporter is told of the
error there and then. The error becomes part of the program in another place, where
reading goes on behind it. Whoever is told, in whatever monad, the readers read the same
and tell of a halt exactly where they stop; nobody else tells of anything.

So it is with a reporter at hand, or none. The reporter hears of each error of the
program once and in the order of the program: none is told and then lost, and none
is passed on to be told again.
-/
namespace Lox

namespace Reading
variable {m : Type → Type} [Monad m] {tell : Halt → m Unit} {α β : Type}

/-- Comes to a result, and tells of it if it is a halt. -/
def settle (tell : Halt → m Unit) : Except Halt α → ExceptT Halt m α
  | .ok a => return a
  | .error x => halt tell x

/-- Reading goes as the reader `r` does. It tells of a halt, and of nothing else. -/
def Follows (tell : Halt → m Unit) (f : Reading m α) (r : Reader α) : Prop :=
  ∀ ts, f ts = settle tell (r ts)

theorem expect_follows (k : Kind) (missing : Expectation) (a : α) :
    Follows tell (expect tell k missing a) (Reader.expect k missing a) := by
  intro ts
  cases ts with
  | nil => rfl
  | cons t ts =>
      rw [expect, Reader.expect_cons]
      split <;> rfl

variable [LawfulMonad m]

theorem halt_bind (x : Halt) (k : α → ExceptT Halt m β) : (halt tell x >>= k) = halt tell x := by
  have hthrow : (throw x >>= k : ExceptT Halt m β) = throw x :=
    pure_bind (Except.error x) (ExceptT.bindCont k)
  unfold halt
  rw [bind_assoc, hthrow]

/-- If the second reading is reached, the first has told of nothing. -/
theorem bind_settle {f : Reading m α} {r : Reader α} {ts : List Token}
    {k : α × List Token → ExceptT Halt m (β × List Token)} {g : α → Reader β}
    (hf : f ts = settle tell (r ts)) (hk : ∀ a rest, k (a, rest) = settle tell (g a rest)) :
    (f ts >>= k) = settle tell (Reader.andThen r g ts) := by
  rw [hf]
  cases hr : r ts with
  | error x =>
      rw [Reader.andThen_of_error hr]
      exact halt_bind x k
  | ok x =>
      rw [Reader.andThen_of_ok hr]
      exact (pure_bind x k).trans (hk x.1 x.2)

theorem unary_follows {nested : Reading m Expr} {inner : Reader Expr}
    (h : Follows tell nested inner) :
    Follows tell (unary tell nested) (Expr.readUnary inner) := by
  intro ts
  induction ts with
  | nil => rfl
  | cons t ts ih =>
      rw [unary, Expr.readUnary_cons]
      unfold Expr.start
      cases t.kind with
      | bang | minus => exact bind_settle ih fun e rest => rfl
      | leftParen =>
          exact bind_settle (h ts) fun e rest => expect_follows _ _ (Expr.grouping e) rest
      | _ => rfl

theorem chain_follows (l : Expr.Level) {operand : Reading m Expr} {inner : Reader Expr}
    (h : Follows tell operand inner) (n : Nat) (left : Expr) :
    Follows tell (chain l operand n left) (Expr.readChain l inner n left) := by
  induction n generalizing left with
  | zero => exact fun ts => rfl
  | succ n ih =>
      intro ts
      cases ts with
      | nil => rfl
      | cons t ts =>
          rw [chain]
          cases hop : l.has t.kind with
          | false =>
              rw [Expr.readChain_of_not_has hop]
              rfl
          | true =>
              rw [Expr.readChain_of_has hop]
              exact bind_settle (h ts) fun right rest => ih (.binary left t right) rest

theorem level_follows (n : Nat) (l : Expr.Level) {operand : Reading m Expr}
    {inner : Reader Expr} (h : Follows tell operand inner) :
    Follows tell (level n l operand) (Expr.readLevel n l inner) := by
  intro ts
  rw [Expr.readLevel_eq]
  exact bind_settle (h ts) fun left rest => chain_follows l h n left rest

theorem within_follows (n depth : Nat) :
    Follows tell (within tell n depth) (Expr.readWithin n depth) := by
  induction depth with
  | zero => exact fun ts => rfl
  | succ depth ih =>
      have hf := level_follows n .factor (unary_follows ih)
      have hc := level_follows n .comparison (level_follows n .term hf)
      exact level_follows n .equality hc

theorem expression_follows : Follows tell (expression tell) Expr.read :=
  fun ts => within_follows ts.length (ts.length + 1) ts

theorem onlyExpression_follows : Follows tell (onlyExpression tell) Expr.readOnly := by
  intro ts
  rw [Expr.readOnly_eq]
  refine bind_settle (expression_follows ts) fun e rest => ?_
  cases rest <;> rfl

theorem closed_follows (missing : Expectation) (f : Expr → Stmt) :
    Follows tell (closed tell missing f) (closed silent missing f) := by
  intro ts
  rw [Stmt.closed_eq]
  exact bind_settle (expression_follows ts) fun e rest => expect_follows _ _ (f e) rest

theorem statement_follows : Follows tell (statement tell) Stmt.read := by
  intro ts
  cases ts with
  | nil => exact closed_follows _ _ []
  | cons t ts =>
      rw [statement, Stmt.read_cons]
      split
      · exact closed_follows _ _ ts
      · exact closed_follows _ _ (t :: ts)

end Reading

/-- Tells a reporter, if there is one; behind the last token stands `stop`. -/
def Reporter.hear (stop : Token) (x : Halt) : StateM (Option Reporter) Unit :=
  modify fun r => r.map (·.addSyntax (x.error stop).report)

namespace Segment

/-- The reports on the errors among some segments, in order. -/
def reports (xs : List Segment) : List Report := (xs.filterMap error?).map (·.report)

/-- A statement leaves the reporter as it is, and an error that is put among the segments
is the one that the reporter has just been told of. -/
theorem cutTelling_hear (stop : Token) (n : Nat) (ts : List Token) (r : Option Reporter) :
    ((cutTelling (Reporter.hear stop) stop n ts).run r).run =
      (cut stop n ts, r.map (·.addSyntaxAll (reports (cut stop n ts)))) := by
  induction n generalizing ts r with
  | zero => cases r <;> rfl
  | succ n ih =>
      cases ts with
      | nil => cases r <;> rfl
      | cons t ts =>
          rw [cutTelling, cut_cons, Reading.statement_follows]
          cases Stmt.read (t :: ts) with
          | ok x =>
              change (let done := ((cutTelling (Reporter.hear stop) stop n x.2).run r).run
                (statement x.1 :: done.1, done.2)) = _
              rw [ih]
              rfl
          | error x =>
              change (let heard := r.map (·.addSyntax (x.error stop).report)
                let rest := resume (t :: ts) x.rest
                let done := ((cutTelling (Reporter.hear stop) stop n rest).run heard).run
                (error (x.error stop) :: done.1, done.2)) = _
              simp only [ih, Option.map_map]
              rfl

end Segment

namespace Cursor

/-- `parse` with a reporter at hand, if there is one. -/
def parseTelling (c : Cursor) (r : Option Reporter) : (Program × Cursor) × Option Reporter :=
  let telling := Segment.cutTelling (Reporter.hear c.stream.stop) c.stream.stop
  let done := ((telling c.ahead.body.length c.ahead.body).run r).run
  ((Program.ofSegments done.1, c.before []), done.2)

/-- `parseExpression` with a reporter at hand, if there is one. An error is dropped where
it is caught. -/
def parseExpressionTelling (c : Cursor) (r : Option Reporter) :
    (Option Expr × Cursor) × Option Reporter :=
  match ((Reading.onlyExpression (Reporter.hear c.stream.stop) c.ahead.body).run.run r).run with
  | (.ok (e, rest), r') => ((some e, c.before rest), r')
  | (.error h, r') => ((none, c.before h.rest), r')

theorem parseTelling_eq (c : Cursor) (r : Option Reporter) :
    c.parseTelling r = (c.parse, r.map fun r => (r.parse c).reporter) := by
  unfold parseTelling
  simp only [Segment.cutTelling_hear]
  rfl

theorem parseExpressionTelling_eq (c : Cursor) (r : Option Reporter) :
    c.parseExpressionTelling r = ((c.parseExpression.1.toOption, c.parseExpression.2),
      r.map fun r => (r.parseExpression c).reporter) := by
  unfold parseExpressionTelling parseExpression Reporter.parseExpression
  rw [Reading.onlyExpression_follows, Expr.readOnly_eq, Reader.andThen, parseExpression,
    Expr.readAll_eq]
  cases Expr.read c.ahead.body with
  | error x => rfl
  | ok x =>
      obtain ⟨e, rest⟩ := x
      cases rest with
      | nil => cases r <;> rfl
      | cons t rest => rfl

end Cursor

namespace Scan

/-- The tokens of some pieces, the first of which begins on `line`, with a reporter at
hand that is told of a piece that belongs to no token. -/
def tokensTelling (line : Nat) (r : Option Reporter) : List Piece → List Token × Option Reporter
  | [] => ([Token.endOf line], r)
  | p :: ps =>
      let below := line + p.newlines
      let heard :=
        match p.error? below with
        | some e => r.map (·.addSyntax e.report)
        | none => r
      let more := tokensTelling below heard ps
      ((p.token? below).toList ++ more.1, more.2)

def telling (source : String) (r : Option Reporter) : List Token × Option Reporter :=
  tokensTelling 1 r (Piece.pieces source.toList)

theorem tokensTelling_eq (line : Nat) (r : Option Reporter) (ps : List Piece) :
    tokensTelling line r ps = (tokensFrom line ps,
      r.map (·.addSyntaxAll ((errorsFrom line ps).map LexicalError.report))) := by
  induction ps generalizing line r with
  | nil => cases r <;> rfl
  | cons p ps ih =>
      rw [tokensTelling, tokensFrom, errorsFrom]
      simp only [ih]
      cases p.error? (line + p.newlines) with
      | none => rfl
      | some e => simp only [Option.map_map]; rfl

theorem telling_eq (source : String) (r : Option Reporter) :
    telling source r = ((ofText source).tokens, r.map fun r => (r.scan source).reporter) :=
  tokensTelling_eq 1 r (Piece.pieces source.toList)

end Scan

/-- The reporter `r'` is `r` after it was told of these errors and of nothing else. -/
structure Reporter.Told (r r' : Reporter) (errors : List SyntaxError) : Prop where
  messages : r'.messages = r.messages ++ errors.map fun e =>
    "[line " ++ decimalText e.token.line ++ "] Error" ++
      (if e.token.kind = .eof then " at end" else " at '" ++ e.token.lexeme ++ "'") ++ ": " ++
      e.expected.message
  hadError : r'.hadError = true ↔ r.hadError = true ∨ errors ≠ []
  hadRuntimeError : r'.hadRuntimeError = r.hadRuntimeError

theorem Reporter.told_addSyntaxAll (r : Reporter) (errors : List SyntaxError) :
    Told r (r.addSyntaxAll (errors.map SyntaxError.report)) errors := by
  constructor
  · rw [messages_addSyntaxAll, List.map_map]
    rfl
  · rw [hadError_addSyntaxAll]
    simp
  · exact hadRuntimeError_addSyntaxAll r _

namespace TokenStream
open Cursor

/-- A reporter is told of every error once, in the order of the errors, and nothing that
is read or scanned depends on whether there is one. -/
theorem errors_told_once (ts : List Token) (h : Closed ts) :
    ∃ s, TokenStream.ofTokens? ts = some s ∧
      (∀ p, parseTelling ⟨s, p⟩ none = (parse ⟨s, p⟩, none) ∧
        ∀ r, parseTelling ⟨s, p⟩ (some r) = (parse ⟨s, p⟩, some (r.parse ⟨s, p⟩).reporter) ∧
          (r.parse ⟨s, p⟩).value = parse ⟨s, p⟩ ∧
          r.Told (r.parse ⟨s, p⟩).reporter (parse ⟨s, p⟩).1.errors) ∧
      (∀ p, ∃ e c, parseExpressionTelling ⟨s, p⟩ none = ((e, c), none) ∧
        ∀ r, parseExpressionTelling ⟨s, p⟩ (some r) =
            ((e, c), some (r.parseExpression ⟨s, p⟩).reporter) ∧
          (r.parseExpression ⟨s, p⟩).value = (e, c) ∧
          ∃ errors, r.Told (r.parseExpression ⟨s, p⟩).reporter errors ∧
            if e = none then ∃ x, parseExpression ⟨s, p⟩ = (.error x, c) ∧ errors = [x]
            else errors = []) ∧
      ∀ source, Scan.telling source none = ((Scan.ofText source).tokens, none) ∧
        ∀ r, Scan.telling source (some r) =
          ((Scan.ofText source).tokens, some (r.scan source).reporter) := by
  obtain ⟨stop, _, hs⟩ := h.ofTokens?
  refine ⟨_, hs, fun p => ?_, fun p => ?_, fun source => ?_⟩
  · refine ⟨parseTelling_eq _ none, fun r => ?_⟩
    exact ⟨parseTelling_eq _ (some r), rfl, r.told_addSyntaxAll _⟩
  · refine ⟨_, _, parseExpressionTelling_eq _ none, fun r => ?_⟩
    refine ⟨parseExpressionTelling_eq _ (some r), ?_⟩
    unfold Reporter.parseExpression
    rcases parseExpression ⟨_, p⟩ with ⟨x | e, c⟩
    · exact ⟨rfl, [x], r.told_addSyntaxAll [x], x, rfl, rfl⟩
    · exact ⟨rfl, [], r.told_addSyntaxAll [], rfl⟩
  · exact ⟨Scan.telling_eq source none, fun r => Scan.telling_eq source (some r)⟩

/-- An open parenthesis on the first line, and a sign without operand on the second. -/
def openTrueThenSign : List Token :=
  [⟨.leftParen, "(", .nil, 1⟩, ⟨.trueWord, "true", .nil, 1⟩, ⟨.semicolon, ";", .nil, 1⟩,
    ⟨.minus, "-", .nil, 2⟩, ⟨.eof, "", .nil, 2⟩]

/-- Of `( true ; -` two errors are told, the second one at the end. What was reported
before is kept. -/
theorem errors_told_once_at_end :
    Closed openTrueThenSign ∧
      ∃ s, TokenStream.ofTokens? openTrueThenSign = some s ∧
        ((Reporter.mk ["earlier"] false true).parse ⟨s, 0⟩).reporter.messages =
          ["earlier", "[line 1] Error at ';': Expect ')' after expression.",
            "[line 2] Error at end: Expect expression."] := by
  have h : Closed openTrueThenSign := ⟨_, rfl, rfl⟩
  obtain ⟨s, hs, hparse, _⟩ := errors_told_once _ h
  obtain ⟨_, _, htold⟩ := (hparse 0).2 ⟨["earlier"], false, true⟩
  obtain rfl := Option.some.inj hs
  exact ⟨h, _, hs, htold.messages.trans (by decide)⟩

end TokenStream

end Lox

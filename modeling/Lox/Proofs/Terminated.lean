import Lox.Proofs.Boundaries
import Lox.Proofs.ValidPrefix

/-!
# Expressions that stand alone and expressions that are closed

An expression can be read alone, and must then reach to the end; or it is read as a
statement, and a semicolon must stand behind it. The two readings keep step: to a reader
of expressions a semicolon is like the end. Both give the same tree, or stop at the same
index for the same reason, but that one misses the end where the other misses a semicolon.
-/
namespace Lox

namespace Expr
open Pending

/-- What is missing inside an expression is never the end of it. -/
theorem expected_ne_end_of_read {ts : List Token} {x : Halt} (h : read ts = .error x) :
    x.expected ≠ .endOfExpression := by
  obtain ⟨u, q, _, _, hexpected, _⟩ := read_halts h
  rw [← hexpected .operand]
  cases q using Pending.byCases with
  | due n => simp [expected]
  | settled => simp [expected]
  | inner n => simp [expected]

end Expr

namespace Stmt
open Reader Segment

/-- What a statement misses where an expression that stands alone misses the rest. -/
def closing : Expectation → Expectation
  | .endOfExpression => .semicolonAfterExpression
  | expected => expected

theorem closing_of_ne {x : Expectation} (h : x ≠ .endOfExpression) : closing x = x := by
  cases x with
  | endOfExpression => exact absurd rfl h
  | _ => rfl

theorem message_closing (x : Expectation) : (closing x).message =
    if x.message = "Expect end of expression." then "Expect ';' after expression."
    else x.message := by
  cases x <;> decide

/-- Tokens without a semicolon, read as a statement when one is put behind them. -/
theorem read_terminated {ts : List Token} {semicolon : Token}
    (hts : ∀ t ∈ ts, t.kind ≠ .semicolon) (hprint : ∀ t ∈ ts.head?, t.kind ≠ .printWord)
    (hsemi : semicolon.kind = .semicolon) :
    read (ts ++ [semicolon]) =
      match Expr.readAll ts with
      | .ok e => .ok (expression e, [])
      | .error x => .error ⟨closing x.expected, x.rest ++ [semicolon]⟩ := by
  have hbarrier : Barrier [semicolon] := by
    intro t ht
    cases ht
    exact .inl hsemi
  have hhead : ∀ t ∈ (ts ++ [semicolon]).head?, t.kind ≠ .printWord := by
    cases ts with
    | nil =>
        intro t ht hk
        cases ht
        rw [hk] at hsemi
        cases hsemi
    | cons u us => exact hprint
  rw [read_of_not_print hhead, readExpression_eq, Expr.readAll_eq, andThen,
    Expr.read_endsAt hbarrier ts]
  have hsuffix := Expr.read_trims ts
  cases hr : Expr.read ts with
  | error x =>
      simp only [extend, closing_of_ne (Expr.expected_ne_end_of_read hr)]
  | ok x =>
      obtain ⟨e, rest⟩ := x
      rw [hr] at hsuffix
      cases rest with
      | nil => exact expect_of_kind hsemi _ _ _
      | cons t rest =>
          -- The expression ends in front of a token that is no semicolon.
          have hk : t.kind ≠ .semicolon := hts t (hsuffix.subset List.mem_cons_self)
          simp only [extend, List.cons_append, expect_cons, if_neg hk, closing]

end Stmt

namespace Cursor

/-- If the first statement cannot be read, it is the first failure. -/
theorem head?_failures {s : TokenStream} {x : Halt} (hne : s.body ≠ [])
    (h : Stmt.read s.body = .error x) :
    (start s).failures.head? = some ⟨0, s.body.length - x.rest.length, x.error s.stop⟩ := by
  obtain ⟨body, stop⟩ := s
  cases body with
  | nil => exact absurd rfl hne
  | cons t ts =>
      have hread : Stmt.read (t :: ts) = .error x := h
      have hahead : (start ⟨t :: ts, stop⟩).ahead.body = t :: ts := rfl
      rw [failures, hahead, List.length_cons, failuresIn, hread, List.head?_cons]
      simp only [start, Nat.sub_self, List.length_cons]

theorem parseExpression_start (ts : List Token) (z : Token) :
    (start ⟨ts, z⟩).parseExpression =
      match Expr.readAll ts with
      | .ok e => (.ok e, (start ⟨ts, z⟩).before [])
      | .error x => (.error (x.error z), (start ⟨ts, z⟩).before x.rest) :=
  rfl

/-- The cursor is left where the reader has stopped. -/
theorem parseExpression_eq_error {ts : List Token} {z : Token} {x : SyntaxError} {c : Cursor}
    (h : (start ⟨ts, z⟩).parseExpression = (.error x, c)) :
    ∃ y, Expr.readAll ts = .error y ∧ x = y.error z ∧ c.pos ≤ ts.length ∧
      y.rest = ts.drop c.pos := by
  rw [parseExpression_start] at h
  cases hr : Expr.readAll ts with
  | ok e =>
      rw [hr] at h
      cases h
  | error y =>
      rw [hr] at h
      cases h
      obtain ⟨q, _, hq, hrest⟩ :=
        Segment.exists_drop_of_suffix (w := ts) (a := 0) (readAll_error_suffix hr) (Nat.zero_le _)
      have hpos : ((start ⟨ts, z⟩).before y.rest).pos = q := by
        simp only [before, start, hrest, List.length_drop, Nat.sub_sub_self hq]
      rw [hpos]
      exact ⟨y, rfl, rfl, hq, hrest⟩

theorem parseExpression_eq_ok_iff {ts : List Token} {semicolon : Token}
    (hts : ∀ t ∈ ts, t.kind ≠ .semicolon) (hprint : ∀ t ∈ ts.head?, t.kind ≠ .printWord)
    (hsemi : semicolon.kind = .semicolon) (z z' : Token) (e : Expr) :
    (start ⟨ts, z⟩).parseExpression.1 = .ok e ↔
      (start ⟨ts ++ [semicolon], z'⟩).parse.1 = ⟨[.expression e], []⟩ := by
  have hread := Stmt.read_terminated hts hprint hsemi
  have hparse : (start ⟨ts ++ [semicolon], z'⟩).parse.1 =
      Program.ofSegments (Segment.all z' (ts ++ [semicolon])) := rfl
  have hne : ts ++ [semicolon] ≠ [] := by simp
  rw [parseExpression_start, hparse]
  cases hr : Expr.readAll ts with
  | ok e' =>
      rw [hr] at hread
      rw [Segment.all_of_ok hread]
      simp [Program.ofSegments, Segment.all, Segment.cut_nil, Segment.statement?, Segment.error?]
  | error y =>
      rw [hr] at hread
      rw [Segment.all_of_error hne hread, Program.ofSegments_error]
      simp

end Cursor

namespace TokenStream
open Cursor

/-- An expression that stands alone is read as one that a semicolon closes, and where the
one cannot be read the other fails at the same index. -/
theorem expression_agrees_with_statement (ts : List Token) (semicolon z z' : Token)
    (heof : ∀ t ∈ ts, t.kind ≠ .eof) (hts : ∀ t ∈ ts, t.kind ≠ .semicolon)
    (hprint : ∀ t ∈ ts.head?, t.kind ≠ .printWord) (hsemi : semicolon.kind = .semicolon)
    (hz : z.kind = .eof) (hz' : z'.kind = .eof) :
    ∃ s s', TokenStream.ofTokens? (ts ++ [z]) = some s ∧
      TokenStream.ofTokens? (ts ++ [semicolon, z']) = some s' ∧
      (∀ e, (start s).parseExpression.1 = .ok e ↔
        (start s').parse.1 = ⟨[.expression e], []⟩) ∧
      ∀ x c, (start s).parseExpression = (.error x, c) →
        c.pos ≤ ts.length ∧ (ts ++ [z])[c.pos]? = some x.token ∧
        (start s').parse.1.errors = (start s').failures.map (·.error) ∧
        ∃ f, (start s').failures.head? = some f ∧ f.stop = c.pos ∧
          (ts ++ [semicolon, z'])[c.pos]? = some f.error.token ∧
          f.error.expected.message =
            if x.expected.message = "Expect end of expression." then
              "Expect ';' after expression."
            else x.expected.message := by
  have hclosed : ∀ t ∈ ts ++ [semicolon], t.kind ≠ .eof := by
    intro t ht
    rcases List.mem_append.mp ht with ht | ht
    · exact heof t ht
    · rw [List.mem_singleton.mp ht, hsemi]
      decide
  have hs' := ofTokens?_append_stop hclosed hz'
  rw [List.append_assoc] at hs'
  have hread := Stmt.read_terminated hts hprint hsemi
  refine ⟨_, _, ofTokens?_append_stop heof hz, hs',
    parseExpression_eq_ok_iff hts hprint hsemi z z', ?_⟩
  intro x c hx
  obtain ⟨y, hr, rfl, hpos, hrest⟩ := parseExpression_eq_error hx
  rw [hr] at hread
  have hne : ts ++ [semicolon] ≠ [] := by simp
  have hstop : (ts ++ [semicolon]).length - (y.rest ++ [semicolon]).length = c.pos := by
    rw [hrest, List.length_append, List.length_append, List.length_drop]
    omega
  refine ⟨hpos, ?_, errors_parse Reporter.fresh _, _, head?_failures hne hread, hstop, ?_, ?_⟩
  · rw [Segment.getElem?_append_stop _ _ [] hpos, ← hrest]
    rfl
  · rw [Segment.getElem?_append_stop ts semicolon [z'] hpos, ← hrest]
    cases y.rest <;> rfl
  · exact Stmt.message_closing y.expected

/-- Two values in a row. -/
def trueNil : List Token := [⟨.trueWord, "true", .nil, 1⟩, ⟨.nilWord, "nil", .nil, 1⟩]

/-- In `true nil` one reading misses the end at `nil`, where the other misses a
semicolon. -/
theorem expression_agrees_with_statement_rest :
    ∃ s s', TokenStream.ofTokens? (trueNil ++ [⟨.eof, "", .nil, 1⟩]) = some s ∧
      TokenStream.ofTokens? (trueNil ++ [⟨.semicolon, ";", .nil, 1⟩, ⟨.eof, "", .nil, 1⟩]) =
        some s' ∧
      (start s).parseExpression.1 = .error ⟨.endOfExpression, ⟨.nilWord, "nil", .nil, 1⟩⟩ ∧
      ∃ f, (start s').failures.head? = some f ∧ f.stop = 1 ∧
        f.error.expected.message = "Expect ';' after expression." := by
  have heof : ∀ t ∈ trueNil, t.kind ≠ .eof := by simp [trueNil]
  have hsemi : ∀ t ∈ trueNil, t.kind ≠ .semicolon := by simp [trueNil]
  have hprint : ∀ t ∈ trueNil.head?, t.kind ≠ .printWord := by simp [trueNil]
  obtain ⟨s, s', hs, hs', _, hfails⟩ :=
    expression_agrees_with_statement trueNil ⟨.semicolon, ";", .nil, 1⟩ ⟨.eof, "", .nil, 1⟩
      ⟨.eof, "", .nil, 1⟩ heof hsemi hprint rfl rfl rfl
  obtain rfl := Option.some.inj hs
  obtain ⟨_, _, _, f, hf, hstop, _, hmessage⟩ := hfails _ _ rfl
  exact ⟨_, s', hs, hs', rfl, f, hf, hstop, hmessage⟩

end TokenStream

end Lox

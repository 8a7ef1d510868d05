import Lox.Proofs.Ahead
import Lox.Proofs.Pending

/-!
# Valid prefixes

Some tokens can be continued to a statement, or to an expression, and some cannot.
A syntax error is found as early as it can be: the tokens in front of it can still
be continued, and with the token at which it is found they no longer can. This holds
of every error, wherever the cursor was and however many errors there are. An end
token continues nothing.
-/
namespace Lox

namespace Expr
open Pending

/-- Tokens that some expression begins with. -/
def Viable (u : List Token) : Prop := ∃ v e, Derives .expression (u ++ v) e

namespace Pending

def nilToken : Token := ⟨.nilWord, "nil", .nil, 1⟩

def closingToken : Token := ⟨.rightParen, ")", .nil, 1⟩

/-- The operand that is due, and all parentheses that are open. -/
def completion : Pending → List Token
  | ⟨n, true⟩ => nilToken :: List.replicate n closingToken
  | ⟨n, false⟩ => List.replicate n closingToken

theorem foldlM_closing (n : Nat) :
    (List.replicate n closingToken).foldlM step ⟨n, false⟩ = some settled := by
  induction n with
  | zero => rfl
  | succ n ih =>
      rw [List.replicate_succ, foldlM_cons_of_some (step_closing rfl n)]
      exact ih

theorem foldlM_completion (q : Pending) : q.completion.foldlM step q = some settled := by
  obtain ⟨n, due⟩ := q
  cases due with
  | false => exact foldlM_closing n
  | true =>
      have hs : step ⟨n, true⟩ nilToken = some ⟨n, false⟩ := rfl
      exact (foldlM_cons_of_some hs _).trans (foldlM_closing n)

end Pending

/-- Tokens can be continued to an expression if none of them is refused. -/
theorem viable_iff (u : List Token) : Viable u ↔ ∃ q, u.foldlM step outset = some q := by
  constructor
  · rintro ⟨v, e, he⟩
    obtain ⟨q, hq, _⟩ := exists_foldlM_of_append ((derives_iff _).mp ⟨e, he⟩)
    exact ⟨q, hq⟩
  · rintro ⟨q, hq⟩
    refine ⟨q.completion, (derives_iff _).mpr ?_⟩
    rw [foldlM_append_of_some hq]
    exact q.foldlM_completion

/-- Where reading a whole expression stops, no expression goes on. -/
theorem readAll_misfit {ts : List Token} {x : Halt} (h : readAll ts = .error x) {stop : Token}
    (hstop : stop.kind = .eof) :
    ∃ u, ts = u ++ x.rest ∧ Viable u ∧ ¬ Viable (u ++ [x.rest.headD stop]) := by
  obtain ⟨u, q, hts, hu, _, hrefused⟩ := readAll_halts h
  refine ⟨u, hts, (viable_iff u).mpr ⟨q, hu⟩, ?_⟩
  rw [viable_iff, foldlM_append_refused hu hrefused (q.step_eof hstop)]
  rintro ⟨q', hq'⟩
  cases hq'

end Expr

namespace Stmt
open Pending

/-- Tokens that some statement begins with. -/
def Viable (u : List Token) : Prop := ∃ v s, Derives (u ++ v) s

namespace Pending

def semicolonToken : Token := ⟨.semicolon, ";", .nil, 1⟩

/-- What brings a statement to its end. -/
def completion : Pending → List Token
  | beginning => Expr.Pending.outset.completion ++ [semicolonToken]
  | inside _ q => q.completion ++ [semicolonToken]
  | complete => []

theorem foldlM_completion (q : Pending) : q.completion.foldlM step q = some complete := by
  cases q with
  | beginning => rfl
  | inside printing q =>
      rw [completion, foldlM_append_of_some (foldlM_inside q.foldlM_completion printing),
        foldlM_singleton]
      exact step_semicolon rfl printing
  | complete => rfl

end Pending

/-- Tokens can be continued to a statement if none of them is refused. -/
theorem viable_iff (u : List Token) : Viable u ↔ ∃ q, u.foldlM step beginning = some q := by
  constructor
  · rintro ⟨v, s, hs⟩
    obtain ⟨q, hq, _⟩ := exists_foldlM_of_append (foldlM_of_derives hs)
    exact ⟨q, hq⟩
  · rintro ⟨q, hq⟩
    refine ⟨q.completion, (derives_iff _).mpr ?_⟩
    rw [foldlM_append_of_some hq]
    exact q.foldlM_completion

/-- Where reading a statement stops, no statement goes on. -/
theorem read_misfit {ts : List Token} {x : Halt} (h : read ts = .error x) {stop : Token}
    (hstop : stop.kind = .eof) :
    ∃ u, ts = u ++ x.rest ∧ Viable u ∧ ¬ Viable (u ++ [x.rest.headD stop]) := by
  obtain ⟨u, q, hts, hu, _, hrefused⟩ := read_halts h
  refine ⟨u, hts, (viable_iff u).mpr ⟨q, hu⟩, ?_⟩
  rw [viable_iff, foldlM_append_refused hu hrefused (q.step_eof hstop)]
  rintro ⟨q', hq'⟩
  cases hq'

end Stmt

namespace Cursor
open Segment

/-- A statement that could not be read: the index at which it begins, the index at
which reading it stopped, and the error. -/
structure Failure where
  start : Nat
  stop : Nat
  error : SyntaxError
  deriving DecidableEq

/-- The failures among the first `n` segments of the last tokens of a stream. -/
def failuresIn (s : TokenStream) : Nat → List Token → List Failure
  | 0, _ => []
  | _ + 1, [] => []
  | n + 1, t :: ts =>
      match Stmt.read (t :: ts) with
      | .ok (_, rest) => failuresIn s n rest
      | .error h =>
          ⟨s.body.length - (t :: ts).length, s.body.length - h.rest.length, h.error s.stop⟩ ::
            failuresIn s n (resume (t :: ts) h.rest)

/-- The statements that cannot be read from the cursor on, in order. -/
def failures (c : Cursor) : List Failure :=
  failuresIn c.stream c.ahead.body.length c.ahead.body

theorem errors_cut (s : TokenStream) (n : Nat) (ts : List Token) :
    (cut s.stop n ts).filterMap error? = (failuresIn s n ts).map (·.error) := by
  induction n generalizing ts with
  | zero => rfl
  | succ n ih =>
      cases ts with
      | nil => rfl
      | cons t ts =>
          rw [cut_cons, failuresIn]
          cases Stmt.read (t :: ts) with
          | ok x => exact ih x.2
          | error x => exact congrArg (x.error s.stop :: ·) (ih _)

/-- The errors of a program are those of its failures, one by one. -/
theorem errors_parse (r : Reporter) (c : Cursor) :
    (r.parse c).value.1.errors = c.failures.map (·.error) :=
  errors_cut c.stream c.ahead.body.length c.ahead.body

/-- A failure is what reading from its first token on comes to. -/
structure Failure.Stands (s : TokenStream) (f : Failure) : Prop where
  start_le : f.start ≤ f.stop
  stop_le : f.stop ≤ s.body.length
  token : f.error.token = (s.body.drop f.stop).headD s.stop
  read : Stmt.read (s.body.drop f.start) = .error ⟨f.error.expected, s.body.drop f.stop⟩

theorem stands_of_mem_failuresIn {s : TokenStream} {n a : Nat} (ha : a ≤ s.body.length)
    {f : Failure} (hf : f ∈ failuresIn s n (s.body.drop a)) : a ≤ f.start ∧ f.Stands s := by
  induction n generalizing a with
  | zero => cases hf
  | succ n ih =>
      cases hd : s.body.drop a with
      | nil =>
          rw [hd] at hf
          cases hf
      | cons t ts =>
          rw [hd, failuresIn, ← hd] at hf
          rcases Stmt.read_trims.stops_at ha with ⟨st, q, haq, hq, hr⟩ | ⟨x, q, haq, hq, hr⟩
          · rw [hr] at hf
            obtain ⟨hle, hstands⟩ := ih hq hf
            exact ⟨by omega, hstands⟩
          · rw [hr] at hf
            rcases List.mem_cons.mp hf with rfl | hlater
            · have hstart : s.body.length - (s.body.drop a).length = a := by
                rw [List.length_drop, Nat.sub_sub_self ha]
              have hstop : s.body.length - (s.body.drop q).length = q := by
                rw [List.length_drop, Nat.sub_sub_self hq]
              simp only [hstart, hstop]
              exact ⟨Nat.le_refl _, haq, hq, rfl, hr⟩
            · obtain ⟨b, hab, hb, hresume⟩ := exists_drop_of_suffix
                (resume_suffix (s.body.drop a) (s.body.drop q)) ha
              rw [hresume] at hlater
              obtain ⟨hle, hstands⟩ := ih hb hlater
              exact ⟨by omega, hstands⟩

theorem stands_of_mem_failures {s : TokenStream} {a : Nat} (ha : a ≤ s.body.length)
    {f : Failure} (hf : f ∈ (Cursor.mk s a).failures) : a ≤ f.start ∧ f.Stands s :=
  stands_of_mem_failuresIn ha hf

/-- The token at which a statement failed is the first that no statement has there. -/
theorem Failure.Stands.misfit {s : TokenStream} {f : Failure} (h : f.Stands s)
    (hstop : s.stop.kind = .eof) :
    ∃ u, s.body.drop f.start = u ++ s.body.drop f.stop ∧ Stmt.Viable u ∧
      ¬ Stmt.Viable (u ++ [(s.body.drop f.stop).headD s.stop]) :=
  Stmt.read_misfit h.read hstop

/-- The token at which an expression failed is the first that no expression has
there, and the cursor is left in front of it. -/
theorem parseExpression_misfit {r : Reporter} {s : TokenStream} {a : Nat} {c : Cursor}
    (ha : a ≤ s.body.length) (hstop : s.stop.kind = .eof)
    (h : (r.parseExpression ⟨s, a⟩).value = (none, c)) :
    a ≤ c.pos ∧ c.pos ≤ s.body.length ∧
      ∃ u, s.body.drop a = u ++ s.body.drop c.pos ∧ Expr.Viable u ∧
        ¬ Expr.Viable (u ++ [(s.body.drop c.pos).headD s.stop]) := by
  have hahead : (Cursor.mk s a).ahead.body = s.body.drop a := rfl
  simp only [Reporter.parseExpression, parseExpression, hahead] at h
  cases hr : Expr.readAll (s.body.drop a) with
  | ok e =>
      rw [hr] at h
      cases h
  | error x =>
      rw [hr] at h
      obtain ⟨q, haq, hq, hrest⟩ := exists_drop_of_suffix (readAll_error_suffix hr) ha
      obtain ⟨u, hu, hviable, hnot⟩ := Expr.readAll_misfit hr hstop
      have hpos : c.pos = q := by
        have hbefore : (Cursor.mk s a).before x.rest = c := congrArg Prod.snd h
        rw [← hbefore, before, hrest, List.length_drop, Nat.sub_sub_self hq]
      rw [hrest] at hu hnot
      rw [hpos]
      exact ⟨haq, hq, u, hu, hviable, hnot⟩

end Cursor

namespace TokenStream
open Cursor

/-- Tokens in front of the first end token, from index `a` up to index `q`, and with
the token at `q`. -/
theorem extract_of_drop {w u : List Token} {a q : Nat} (haq : a ≤ q) (hq : q ≤ w.length)
    (h : w.drop a = u ++ w.drop q) (stop : Token) (behind : List Token) :
    (w ++ stop :: behind).extract a q = u ∧
      (w ++ stop :: behind).extract a (q + 1) = u ++ [(w.drop q).headD stop] := by
  have hlen : u.length = q - a := by
    have hlen := congrArg List.length h
    rw [List.length_append, List.length_drop, List.length_drop] at hlen
    omega
  have hdrop : (w ++ stop :: behind).drop a = u ++ (w.drop q ++ stop :: behind) := by
    rw [List.drop_append_of_le_length (by omega), h, List.append_assoc]
  constructor
  · rw [List.extract_eq_take_drop, hdrop, ← hlen, List.take_left]
  · have hsucc : q + 1 - a = u.length + 1 := by omega
    rw [List.extract_eq_take_drop, hdrop, hsucc, List.take_length_add_append]
    cases w.drop q <;> rfl

/-- Every syntax error is found at the first token that cannot continue what was
read, be it a statement of a program or a single expression. -/
theorem errors_at_first_misfit (ts : List Token) (h : Closed ts) :
    ∃ s, TokenStream.ofTokens? ts = some s ∧
      ∀ (r : Reporter) (a : Nat), a ≤ ts.findIdx (·.kind = .eof) →
        (r.parse ⟨s, a⟩).value.1.errors = (Cursor.mk s a).failures.map (·.error) ∧
        (∀ f ∈ (Cursor.mk s a).failures, a ≤ f.start ∧ f.start ≤ f.stop ∧
          ts[f.stop]? = some f.error.token ∧
          Stmt.Viable (ts.extract f.start f.stop) ∧
          ¬ Stmt.Viable (ts.extract f.start (f.stop + 1))) ∧
        ∀ c, (r.parseExpression ⟨s, a⟩).value = (none, c) → a ≤ c.pos ∧
          (∃ e : SyntaxError, ts[c.pos]? = some e.token ∧
            (r.parseExpression ⟨s, a⟩).events = e.report.events) ∧
          Expr.Viable (ts.extract a c.pos) ∧ ¬ Expr.Viable (ts.extract a (c.pos + 1)) := by
  obtain ⟨w, stop, behind, rfl, hw, hstop, hidx⟩ := h.exists_append
  have hbehind := (closed_append_cons w stop behind).mp h
  refine ⟨⟨w, stop⟩, ofTokens?_append_cons hw hstop hbehind, fun r a ha => ?_⟩
  rw [hidx] at ha
  refine ⟨errors_parse r ⟨⟨w, stop⟩, a⟩, ?_, ?_⟩
  · intro f hf
    obtain ⟨hle, hstands⟩ := stands_of_mem_failures ha hf
    obtain ⟨u, hu, hviable, hnot⟩ := hstands.misfit hstop
    obtain ⟨hfront, hwith⟩ := extract_of_drop hstands.start_le hstands.stop_le hu stop behind
    rw [hfront, hwith, hstands.token]
    exact ⟨hle, hstands.start_le, Segment.getElem?_append_stop w stop behind hstands.stop_le,
      hviable, hnot⟩
  · intro c hc
    obtain ⟨hle, hend, u, hu, hviable, hnot⟩ := parseExpression_misfit (s := ⟨w, stop⟩) ha hstop hc
    obtain ⟨hfront, hwith⟩ := extract_of_drop hle hend hu stop behind
    have hnone : (call r ⟨⟨w, stop⟩, a⟩ .parseExpression).value.1 = .expression none := by
      simp only [call, hc]
    obtain ⟨e, hevents, htoken⟩ := call_parseExpression_none (c := ⟨⟨w, stop⟩, a⟩) ha hnone
    have hcursor : (call r ⟨⟨w, stop⟩, a⟩ .parseExpression).value.2 = c :=
      congrArg Prod.snd hc
    rw [hcursor] at htoken
    rw [hfront, hwith]
    exact ⟨hle, ⟨e, htoken behind, hevents⟩, hviable, hnot⟩

/-- A sum without its right operand, and a parenthesis that none opens. -/
def printBrokenSum : List Token :=
  [⟨.printWord, "print", .nil, 1⟩, ⟨.leftParen, "(", .nil, 1⟩, ⟨.trueWord, "true", .nil, 1⟩,
    ⟨.plus, "+", .nil, 1⟩, ⟨.semicolon, ";", .nil, 1⟩, ⟨.nilWord, "nil", .nil, 2⟩,
    ⟨.rightParen, ")", .nil, 2⟩, ⟨.eof, "", .nil, 2⟩]

/-- In `print (true + ; nil )` the first error is found at the semicolon and the
second at the parenthesis; read as an expression it fails at `print`. -/
theorem errors_at_first_misfit_twice :
    Closed printBrokenSum ∧
      Stmt.Viable (printBrokenSum.extract 0 4) ∧
      ¬ Stmt.Viable (printBrokenSum.extract 0 5) ∧
      ¬ Stmt.Viable (printBrokenSum.extract 5 7) ∧
      ¬ Expr.Viable (printBrokenSum.extract 0 1) := by
  have h : Closed printBrokenSum := ⟨_, rfl, rfl⟩
  obtain ⟨s, hs, herrors⟩ := errors_at_first_misfit _ h
  obtain rfl := Option.some.inj hs
  obtain ⟨_, hfailures, hexpression⟩ := herrors Reporter.fresh 0 (Nat.zero_le _)
  obtain ⟨_, _, _, hfirst, hnotFirst⟩ :=
    hfailures ⟨0, 4, ⟨.operand, ⟨.semicolon, ";", .nil, 1⟩⟩⟩ (.head _)
  obtain ⟨_, _, _, _, hnotSecond⟩ :=
    hfailures ⟨5, 6, ⟨.semicolonAfterExpression, ⟨.rightParen, ")", .nil, 2⟩⟩⟩ (.tail _ (.head _))
  obtain ⟨_, _, _, hnotExpression⟩ := hexpression _ rfl
  exact ⟨h, hfirst, hnotFirst, hnotSecond, hnotExpression⟩

end TokenStream

end Lox

import Lox.Proofs.Walking
import Mathlib.Data.List.Basic
import Mathlib.Data.List.TakeWhile

/-!
# What lies ahead of a cursor

A cursor can be asked many times. A call begins where the one before it stopped,
also where that one failed, unless the cursor was taken back to the beginning in
between. What it answers is decided by the tokens from the cursor up to the first
end token. Neither the calls before it, nor the tokens in front of the cursor, nor
those behind the end token have a part in it.
-/
namespace Lox

namespace Cursor

/-- What can be asked of a cursor. -/
inductive Call where
  | parse
  | parseExpression
  | rewind
  deriving DecidableEq

inductive Answer where
  | program (p : Program)
  | expression (e : Option Expr)
  | nothing

def call (r : Reporter) (c : Cursor) : Call → Step (Answer × Cursor)
  | .parse =>
      let done := r.parse c
      ⟨(.program done.value.1, done.value.2), done.reporter, done.events⟩
  | .parseExpression =>
      let done := r.parseExpression c
      ⟨(.expression done.value.1, done.value.2), done.reporter, done.events⟩
  | .rewind => ⟨(.nothing, c.rewind), r, []⟩

/-- The reporter and the cursor that some calls leave. -/
def after (r : Reporter) (c : Cursor) : List Call → Reporter × Cursor
  | [] => (r, c)
  | q :: qs =>
      let done := call r c q
      after done.reporter done.value.2 qs

/-- A call that follows others. -/
def callAfter (r : Reporter) (c : Cursor) (qs : List Call) (q : Call) : Step (Answer × Cursor) :=
  call (after r c qs).1 (after r c qs).2 q

theorem after_append (r : Reporter) (c : Cursor) (qs qs' : List Call) :
    after r c (qs ++ qs') = after (after r c qs).1 (after r c qs).2 qs' := by
  induction qs generalizing r c with
  | nil => rfl
  | cons q qs ih => exact ih _ _

theorem after_concat (r : Reporter) (c : Cursor) (qs : List Call) (q : Call) :
    after r c (qs ++ [q]) = ((callAfter r c qs q).reporter, (callAfter r c qs q).value.2) := by
  rw [after_append]
  rfl

/-- The cursor is not behind the end of its stream. -/
def Within (c : Cursor) : Prop := c.pos ≤ c.stream.body.length

theorem start_ahead (c : Cursor) : (start c.ahead).ahead = c.ahead := by
  simp only [start, ahead, List.drop_zero]

theorem call_stream (r : Reporter) (c : Cursor) (q : Call) :
    (call r c q).value.2.stream = c.stream := by
  cases q with
  | parse => rfl
  | rewind => rfl
  | parseExpression =>
      simp only [call, Reporter.parseExpression, parseExpression]
      cases Expr.readAll c.ahead.body <;> rfl

theorem call_within (r : Reporter) (c : Cursor) (q : Call) : (call r c q).value.2.Within := by
  cases q with
  | parse => exact Nat.sub_le _ _
  | rewind => exact Nat.zero_le _
  | parseExpression =>
      simp only [call, Reporter.parseExpression, parseExpression]
      cases Expr.readAll c.ahead.body <;> exact Nat.sub_le _ _

theorem after_stream (r : Reporter) (c : Cursor) (qs : List Call) :
    (after r c qs).2.stream = c.stream := by
  induction qs generalizing r c with
  | nil => rfl
  | cons q qs ih => exact (ih _ _).trans (call_stream r c q)

theorem after_within (r : Reporter) {c : Cursor} (h : c.Within) (qs : List Call) :
    (after r c qs).2.Within := by
  induction qs generalizing r c with
  | nil => exact h
  | cons q qs ih => exact ih _ (call_within r c q)

/-- Calls move the cursor within the stream on which it was started. -/
theorem after_start (r : Reporter) (s : TokenStream) (qs : List Call) :
    ∃ r' p, after r (start s) qs = (r', ⟨s, p⟩) ∧ p ≤ s.body.length := by
  have hstream := after_stream r (start s) qs
  have hwithin := after_within r (c := start s) (Nat.zero_le _) qs
  generalize after r (start s) qs = x at hstream hwithin
  obtain ⟨r', s', p⟩ := x
  obtain rfl : s' = s := hstream
  exact ⟨r', p, rfl, hwithin⟩

/-- Two steps, from the reporters `r` and `r'`, with the same answer, the same events
and the same reports. The first stops `p` tokens further on. -/
structure Repeats (p : Nat) (r r' : Reporter) (x y : Step (Answer × Cursor)) : Prop where
  answer : x.value.1 = y.value.1
  events : x.events = y.events
  reports : ∃ reports, x.reporter = r.addSyntaxAll reports ∧ y.reporter = r'.addSyntaxAll reports
  pos : x.value.2.pos = p + y.value.2.pos

/-- What stopped the reading of an expression stands among its tokens. -/
theorem readAll_error_suffix {ts : List Token} {x : Halt} (h : Expr.readAll ts = .error x) :
    x.rest <:+ ts := by
  have hsuffix := Expr.read_trims ts
  rw [Expr.readAll_eq] at h
  cases hr : Expr.read ts with
  | error y =>
      rw [hr] at h hsuffix
      cases h
      exact hsuffix
  | ok y =>
      obtain ⟨e, rest⟩ := y
      rw [hr] at h hsuffix
      cases rest with
      | nil => cases h
      | cons t rest =>
          cases h
          exact hsuffix

/-- A call reads what lies ahead as it reads a stream of its own. -/
theorem call_repeats (r r' : Reporter) {c : Cursor} (hc : c.Within) {q : Call}
    (hq : q ≠ .rewind) : Repeats c.pos r r' (call r c q) (call r' (start c.ahead) q) := by
  have hlen : c.ahead.body.length = c.stream.body.length - c.pos := List.length_drop
  unfold Within at hc
  cases q with
  | rewind => exact absurd rfl hq
  | parse =>
      simp only [call, Reporter.parse, parse, start_ahead]
      refine ⟨rfl, rfl, ⟨_, rfl, rfl⟩, ?_⟩
      simp only [before, start, hlen, List.length_nil]
      omega
  | parseExpression =>
      simp only [call, Reporter.parseExpression, parseExpression, start_ahead]
      cases hr : Expr.readAll c.ahead.body with
      | ok e =>
          refine ⟨rfl, rfl, ⟨[], rfl, rfl⟩, ?_⟩
          simp only [before, start, hlen, List.length_nil]
          omega
      | error x =>
          have hle := (readAll_error_suffix hr).length_le
          refine ⟨rfl, rfl, ⟨[(x.error c.stream.stop).report], rfl, rfl⟩, ?_⟩
          simp only [before, start, hlen]
          omega

/-- A reporter is told of errors and has no part in what is read. -/
theorem call_any_reporter (r r' : Reporter) (c : Cursor) (q : Call) :
    (call r c q).value = (call r' c q).value ∧ (call r c q).events = (call r' c q).events := by
  cases q with
  | parse => exact ⟨rfl, rfl⟩
  | rewind => exact ⟨rfl, rfl⟩
  | parseExpression =>
      simp only [call, Reporter.parseExpression]
      cases c.parseExpression with
      | mk x after => cases x <;> exact ⟨rfl, rfl⟩

/-- After a failed expression the cursor stands in front of the token that was
reported. -/
theorem call_parseExpression_none {r : Reporter} {c : Cursor} (hc : c.Within)
    (h : (call r c .parseExpression).value.1 = .expression none) :
    ∃ e : SyntaxError, (call r c .parseExpression).events = e.report.events ∧
      ∀ behind, (c.stream.body ++ c.stream.stop :: behind)[
        (call r c .parseExpression).value.2.pos]? = some e.token := by
  simp only [call, Reporter.parseExpression, parseExpression] at h ⊢
  cases hr : Expr.readAll c.ahead.body with
  | ok e =>
      rw [hr] at h
      cases h
  | error x =>
      obtain ⟨q, _, hq, hrest⟩ := Segment.exists_drop_of_suffix (readAll_error_suffix hr) hc
      refine ⟨x.error c.stream.stop, rfl, fun behind => ?_⟩
      simp only [before, hrest, List.length_drop, Nat.sub_sub_self hq]
      rw [Segment.getElem?_append_stop _ _ _ hq, ← hrest]
      rfl

/-- A call made at the beginning can be repeated there. -/
theorem callAfter_again {r : Reporter} {s : TokenStream} {qs : List Call}
    (hzero : (after r (start s) qs).2.pos = 0) (q : Call) :
    (callAfter r (start s) (qs ++ [q, .rewind]) q).value = (callAfter r (start s) qs q).value ∧
      (callAfter r (start s) (qs ++ [q, .rewind]) q).events =
        (callAfter r (start s) qs q).events := by
  obtain ⟨r₁, p, hafter, _⟩ := after_start r s qs
  rw [hafter] at hzero
  obtain rfl : p = 0 := hzero
  have hrewind : after r (start s) (qs ++ [q, .rewind]) =
      ((call r₁ (start s) q).reporter, start s) := by
    rw [after_append, hafter]
    exact congrArg _ (congrArg start (call_stream r₁ (start s) q))
  -- Only the reporter is another one the second time.
  rw [callAfter, callAfter, hrewind, hafter]
  exact call_any_reporter _ _ _ q

/-- Behind a failed expression the rest is read as a program of its own, from the
reported token on. -/
theorem callAfter_failed {r : Reporter} {s : TokenStream} {qs : List Call}
    (hnone : (callAfter r (start s) qs .parseExpression).value.1 = .expression none) :
    ∃ (e : SyntaxError) (p : Nat), (callAfter r (start s) qs .parseExpression).value.2.pos = p ∧
      p ≤ s.body.length ∧ (∀ behind, (s.body ++ s.stop :: behind)[p]? = some e.token) ∧
      (callAfter r (start s) qs .parseExpression).events = e.report.events ∧
      (callAfter r (start s) (qs ++ [.parseExpression]) .parse).value.1 =
        .program (Program.ofStream (Cursor.mk s p).ahead) := by
  obtain ⟨r₁, a, hafter, ha⟩ := after_start r s qs
  obtain ⟨r₂, p, hlast, hp⟩ := after_start r s (qs ++ [.parseExpression])
  have hcall : callAfter r (start s) qs .parseExpression = call r₁ ⟨s, a⟩ .parseExpression := by
    rw [callAfter, hafter]
  have hcursor : (callAfter r (start s) qs .parseExpression).value.2 = ⟨s, p⟩ :=
    congrArg Prod.snd ((after_concat r (start s) qs .parseExpression).symm.trans hlast)
  rw [hcall] at hnone hcursor ⊢
  obtain ⟨e, hevents, htoken⟩ := call_parseExpression_none (c := ⟨s, a⟩) ha hnone
  rw [hcursor] at htoken ⊢
  refine ⟨e, p, rfl, hp, htoken, hevents, ?_⟩
  rw [callAfter, hlast]
  rfl

end Cursor

/-- A call, answered by walking, where no loop may take more than `n` turns and no
nesting may go deeper. -/
def Gait.answer {m : Type → Type} [Monad m] (g : Gait m) (n : Nat) :
    Cursor.Call → m Cursor.Answer
  | .parse => g.noting .called do
      return .program (Program.ofSegments (← g.segments n n))
  | .parseExpression => g.noting .called do
      return .expression (← g.wholeExpression n).toOption
  | .rewind => do
      g.rewind
      return .nothing

namespace Window
open Cursor

/-- A call, answered without a look outside the window. -/
def answer (v : Window) (n : Nat) (q : Call) : Walk Answer := v.gait.answer n q

/-- A walk that sees nothing but what lies ahead of the cursor answers every call. -/
theorem Shows.answer_eq {v : Window} {s : TokenStream} (h : v.Shows s) {p n : Nat}
    (hfirst : v.first ≤ p) (hp : p ≤ s.body.length) (hn : s.body.length < p + n)
    (r : Reporter) (q : Call) :
    v.answer n q p = .ok ((call r ⟨s, p⟩ q).value.1, (call r ⟨s, p⟩ q).value.2.pos) := by
  cases q with
  | rewind => rfl
  | parse => exact bind_of_ok (h.segments_eq hfirst hp hn hn) _
  | parseExpression =>
      rw [answer, Gait.answer, noting_eq, bind_of_ok (h.wholeExpression_eq hfirst hp hn)]
      simp only [call, Reporter.parseExpression]
      cases (Cursor.mk s p).parseExpression with
      | mk x c => cases x <;> rfl

end Window

namespace TokenStream
open Cursor

theorem closed_append_cons (w : List Token) (stop : Token) (behind : List Token) :
    Closed (w ++ stop :: behind) ↔ Closed (stop :: behind) := by
  unfold Closed
  rw [List.getLast?_append_cons]

/-- Closed tokens fall into those in front of the first end token, that token and
others. -/
theorem Closed.exists_append {ts : List Token} (h : Closed ts) :
    ∃ w stop behind, ts = w ++ stop :: behind ∧ (∀ t ∈ w, t.kind ≠ .eof) ∧
      stop.kind = .eof ∧ ts.findIdx (·.kind = .eof) = w.length := by
  obtain ⟨stop, hstop, _⟩ := h.ofTokens?
  obtain ⟨hlt, hget⟩ := List.getElem?_eq_some_iff.mp hstop
  refine ⟨front ts, stop, ts.drop (ts.findIdx (·.kind = .eof) + 1), ?_, ?_, ?_, ?_⟩
  · rw [front_eq_take, ← hget, ← List.drop_eq_getElem_cons hlt, List.take_append_drop]
  · intro t ht
    simpa using List.mem_takeWhile_imp ht
  · rw [← hget]
    simpa using List.findIdx_getElem (w := hlt)
  · exact (front_length ts).symm

section
variable {w : List Token} {stop : Token} (hw : ∀ t ∈ w, t.kind ≠ .eof) (hstop : stop.kind = .eof)
include hw hstop

theorem front_append_cons (behind : List Token) : front (w ++ stop :: behind) = w := by
  unfold front
  rw [List.takeWhile_append_of_pos (by simpa using hw), List.takeWhile_cons_of_neg (by simpa),
    List.append_nil]

/-- A stream is what stands in front of the first end token, and that token. -/
theorem ofTokens?_append_cons {behind : List Token} (h : Closed (stop :: behind)) :
    TokenStream.ofTokens? (w ++ stop :: behind) = some ⟨w, stop⟩ := by
  obtain ⟨z, hz, hs⟩ := ((closed_append_cons w stop behind).mpr h).ofTokens?
  rw [← front_length, front_append_cons hw hstop, List.getElem?_append_right (Nat.le_refl _),
    Nat.sub_self] at hz
  obtain rfl : stop = z := Option.some.inj hz
  rw [hs, front_append_cons hw hstop]

/-- The tokens from a cursor on make the stream ahead of it. -/
theorem ofTokens?_drop {behind : List Token} (h : Closed (stop :: behind)) {p : Nat}
    (hp : p ≤ w.length) :
    TokenStream.ofTokens? ((w ++ stop :: behind).drop p) = some (Cursor.mk ⟨w, stop⟩ p).ahead := by
  rw [List.drop_append_of_le_length hp]
  exact ofTokens?_append_cons (fun t ht => hw t (List.mem_of_mem_drop ht)) hstop h

/-- The call `q` with the cursor at `p` finds all that it needs between there and the
first end token, and gives what it gives when these tokens are all there are. -/
structure ReadsAhead (ts : List Token) (p : Nat) (q : Call) (r : Reporter)
    (done : Step (Answer × Cursor)) : Prop where
  le_end : p ≤ ts.findIdx (·.kind = .eof)
  walked : (Window.mk ts p (ts.findIdx (·.kind = .eof))).answer ts.length q p =
    .ok (done.value.1, done.value.2.pos)
  anew : q ≠ .rewind → ∃ s, TokenStream.ofTokens? (ts.drop p) = some s ∧
    ∀ r', Repeats p r r' done (call r' (start s) q)

theorem call_readsAhead {behind : List Token} (h : Closed (stop :: behind)) {p : Nat}
    (hp : p ≤ w.length) (r : Reporter) (q : Call) :
    ReadsAhead (w ++ stop :: behind) p q r (call r ⟨⟨w, stop⟩, p⟩ q) := by
  have hidx : (w ++ stop :: behind).findIdx (·.kind = .eof) = w.length := by
    rw [← front_length, front_append_cons hw hstop]
  constructor
  · rwa [hidx]
  · have hshows : (Window.mk (w ++ stop :: behind) p w.length).Shows ⟨w, stop⟩ :=
      ⟨⟨behind, rfl⟩, rfl, hw, hstop⟩
    have hlen : w.length < p + (w ++ stop :: behind).length := by
      simp only [List.length_append, List.length_cons]
      omega
    rw [hidx]
    exact hshows.answer_eq (Nat.le_refl p) hp hlen r q
  · intro hq
    refine ⟨_, ofTokens?_drop hw hstop h hp, fun r' => ?_⟩
    exact call_repeats r r' (c := ⟨⟨w, stop⟩, p⟩) hp hq

end

/-- Every call, whatever was called before, reads what lies ahead of the cursor and
nothing else. So tokens behind the first end token can be exchanged, a call can be
repeated from the beginning, and after a failed expression the rest is read from the
reported token on as if it stood alone. -/
theorem call_reads_ahead (ts : List Token) (h : Closed ts) :
    ∃ s, TokenStream.ofTokens? ts = some s ∧
      (∀ r qs q, ReadsAhead ts (after r (start s) qs).2.pos q (after r (start s) qs).1
        (callAfter r (start s) qs q)) ∧
      (∀ others, Closed (ts.take (ts.findIdx (·.kind = .eof) + 1) ++ others) →
        TokenStream.ofTokens? (ts.take (ts.findIdx (·.kind = .eof) + 1) ++ others) = some s) ∧
      (∀ r qs q, (after r (start s) qs).2.pos = 0 →
        (callAfter r (start s) (qs ++ [q, .rewind]) q).value =
          (callAfter r (start s) qs q).value ∧
        (callAfter r (start s) (qs ++ [q, .rewind]) q).events =
          (callAfter r (start s) qs q).events) ∧
      ∀ r qs, (callAfter r (start s) qs .parseExpression).value.1 = .expression none →
        ∃ (e : SyntaxError) (p : Nat) (rest : TokenStream),
          (callAfter r (start s) qs .parseExpression).value.2.pos = p ∧
          ts[p]? = some e.token ∧
          (callAfter r (start s) qs .parseExpression).events = e.report.events ∧
          TokenStream.ofTokens? (ts.drop p) = some rest ∧
          (callAfter r (start s) (qs ++ [.parseExpression]) .parse).value.1 =
            .program (Program.ofStream rest) := by
  obtain ⟨w, stop, behind, rfl, hw, hstop, hidx⟩ := h.exists_append
  have hbehind := (closed_append_cons w stop behind).mp h
  refine ⟨⟨w, stop⟩, ofTokens?_append_cons hw hstop hbehind, ?_, ?_, ?_, ?_⟩
  · intro r qs q
    obtain ⟨r₁, p, hafter, hp⟩ := after_start r ⟨w, stop⟩ qs
    rw [callAfter, hafter]
    exact call_readsAhead hw hstop hbehind hp r₁ q
  · intro others hothers
    have hshown : (w ++ stop :: behind).take (w.length + 1) = w ++ [stop] := by
      rw [List.take_length_add_append]
      rfl
    rw [hidx, hshown, List.append_assoc, List.singleton_append] at hothers ⊢
    exact ofTokens?_append_cons hw hstop ((closed_append_cons w stop others).mp hothers)
  · intro r qs q hzero
    exact callAfter_again hzero q
  · intro r qs hnone
    obtain ⟨e, p, hpos, hp, htoken, hevents, hprogram⟩ := callAfter_failed hnone
    exact ⟨e, p, _, hpos, htoken behind, hevents, ofTokens?_drop hw hstop hbehind hp, hprogram⟩

/-- A sum without its right operand, a statement, and a parenthesis behind the
first end token. -/
def brokenSumThenPrint : List Token :=
  [⟨.trueWord, "true", .nil, 1⟩, ⟨.plus, "+", .nil, 1⟩, ⟨.semicolon, ";", .nil, 1⟩,
    ⟨.printWord, "print", .nil, 2⟩, ⟨.nilWord, "nil", .nil, 2⟩, ⟨.semicolon, ";", .nil, 2⟩,
    ⟨.eof, "", .nil, 2⟩, ⟨.rightParen, ")", .nil, 3⟩, ⟨.eof, "", .nil, 3⟩]

/-- After `true +` has failed as an expression at the semicolon, the rest is read from
the semicolon on: one error there, and the statement behind it. -/
theorem call_reads_ahead_after_failure :
    Closed brokenSumThenPrint ∧
      (callAfter Reporter.fresh
        (start ⟨front brokenSumThenPrint, ⟨.eof, "", .nil, 2⟩⟩)
        [.parseExpression] .parse).value.1 =
        .program ⟨[.print (.literal .nil)], [⟨.operand, ⟨.semicolon, ";", .nil, 1⟩⟩]⟩ := by
  have h : Closed brokenSumThenPrint := ⟨_, rfl, rfl⟩
  obtain ⟨s, hs, _, _, _, hfailed⟩ := call_reads_ahead _ h
  obtain rfl := Option.some.inj hs
  obtain ⟨_, p, rest, hpos, _, _, hrest, hprogram⟩ := hfailed Reporter.fresh [] rfl
  obtain rfl : 2 = p := hpos
  obtain rfl := Option.some.inj hrest
  exact ⟨h, hprogram⟩

end TokenStream

end Lox

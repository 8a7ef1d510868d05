import Lox.Proofs.Marks

/-!
# Bounds that are not reached

A walk with marks is given a bound on the turns of its loops and on its nesting. A
bound only makes a difference where it is reached. A walk that ends under one bound is
the same walk under every larger one, to the last mark, so what can be seen from the
marks does not depend on the bound.
-/
namespace Lox

namespace MarkedWalk
variable {α β : Type}

/-- The walk `t'` does what `t` does, unless `t` reaches its bound. -/
def Outlasts (t' t : MarkedWalk α) : Prop :=
  ∀ k, (∃ k', t k = (.error .endless, k')) ∨ t' k = t k

namespace Outlasts
variable {t t' : MarkedWalk α}

theorem refl (t : MarkedWalk α) : Outlasts t t := fun _ => .inr rfl

theorem endless (t' : MarkedWalk α) : Outlasts t' (throw .endless) :=
  fun k => .inl ⟨k, rfl⟩

theorem bind {f f' : α → MarkedWalk β} (h : Outlasts t' t)
    (hf : ∀ a, Outlasts (f' a) (f a)) : Outlasts (t' >>= f') (t >>= f) := by
  intro k
  rcases h k with ⟨k', hend⟩ | heq
  · exact .inl ⟨k', bind_of_error hend f⟩
  · rcases ht : t k with ⟨x, k'⟩
    rw [ht] at heq
    cases x with
    | error x => exact .inr ((bind_of_error heq f').trans (bind_of_error ht f).symm)
    | ok a =>
        rw [bind_of_ok ht f, bind_of_ok heq f']
        exact hf a k'

theorem noting (a : Nat → Act) (h : Outlasts t' t) : Outlasts (noting a t') (noting a t) :=
  (refl get).bind fun _ => h.bind fun _ => refl _

theorem ite {b : Prop} [Decidable b] {u u' : MarkedWalk α} (h : Outlasts t' t)
    (hu : Outlasts u' u) : Outlasts (if b then t' else u') (if b then t else u) := by
  split
  · exact h
  · exact hu

theorem rescue (f : α → β) {handle handle' : SyntaxError → MarkedWalk β}
    (h : Outlasts t' t) (hhandle : ∀ e, Outlasts (handle' e) (handle e)) :
    Outlasts (rescue t' f handle') (rescue t f handle) := by
  intro k
  rcases h k with ⟨k', hend⟩ | heq
  · exact .inl ⟨k', by rw [MarkedWalk.rescue, hend]⟩
  · rw [MarkedWalk.rescue, MarkedWalk.rescue, heq]
    obtain ⟨x, k'⟩ := t k
    rcases x with (_ | _ | ⟨e⟩) | a
    · exact .inr rfl
    · exact .inr rfl
    · exact hhandle e k'
    · exact .inr rfl

end Outlasts

section
variable (ts : List Token) {n n' : Nat}

theorem primary_outlasts {nested nested' : MarkedWalk Expr} (h : Outlasts nested' nested) :
    Outlasts ((gait ts).primary nested') ((gait ts).primary nested) := by
  refine (Outlasts.refl _).bind fun _ => .ite (.refl _) ?_
  refine (Outlasts.refl _).bind fun _ => .ite (.refl _) ?_
  refine (Outlasts.refl _).bind fun _ => .ite (.refl _) ?_
  refine (Outlasts.refl _).bind fun _ => .ite (.refl _) ?_
  exact (Outlasts.refl _).bind fun _ => .ite (h.bind fun _ => .refl _) (.refl _)

theorem unary_outlasts {nested nested' : MarkedWalk Expr} (h : Outlasts nested' nested)
    (hn : n ≤ n') : Outlasts ((gait ts).unary nested' n') ((gait ts).unary nested n) := by
  induction n generalizing n' with
  | zero => exact .endless _
  | succ n ih =>
      obtain ⟨m, rfl⟩ := Nat.exists_eq_add_of_lt hn
      refine Outlasts.noting _ ((Outlasts.refl _).bind fun _ => .ite ?_ (primary_outlasts ts h))
      exact (Outlasts.refl _).bind fun _ => (ih (by omega)).bind fun _ => .refl _

section
variable {operand operand' : MarkedWalk Expr} (h : Outlasts operand' operand) (hn : n ≤ n')
include h hn

theorem chain_outlasts (l : Expr.Level) (left : Expr) :
    Outlasts ((gait ts).chain l operand' n' left) ((gait ts).chain l operand n left) := by
  induction n generalizing n' left with
  | zero => exact .endless _
  | succ n ih =>
      obtain ⟨m, rfl⟩ := Nat.exists_eq_add_of_lt hn
      refine (Outlasts.refl _).bind fun _ => .ite ?_ (.refl _)
      exact (Outlasts.refl _).bind fun op => h.bind fun right =>
        ih (by omega) (.binary left op right)

theorem level_outlasts (l : Expr.Level) :
    Outlasts ((gait ts).level n' l operand') ((gait ts).level n l operand) :=
  .noting _ (h.bind fun left => chain_outlasts ts h hn l left)

end

theorem expression_outlasts {depth depth' : Nat} (hn : n ≤ n') (hdepth : depth ≤ depth') :
    Outlasts ((gait ts).expression n' depth') ((gait ts).expression n depth) := by
  induction depth generalizing depth' with
  | zero => exact .endless _
  | succ depth ih =>
      obtain ⟨m, rfl⟩ := Nat.exists_eq_add_of_lt hdepth
      have hf := level_outlasts ts (unary_outlasts ts (ih (Nat.le_add_right depth m)) hn) hn .factor
      have hc := level_outlasts ts (level_outlasts ts hf hn .term) hn .comparison
      exact level_outlasts ts hc hn .equality

section
variable (hn : n ≤ n')
include hn

theorem statement_outlasts : Outlasts ((gait ts).statement n') ((gait ts).statement n) := by
  have hexpression := expression_outlasts ts hn hn
  exact (Outlasts.refl _).bind fun _ =>
    .ite (hexpression.bind fun _ => .refl _) (hexpression.bind fun _ => .refl _)

theorem skip_outlasts : Outlasts ((gait ts).skip n') ((gait ts).skip n) := by
  induction n generalizing n' with
  | zero => exact .endless _
  | succ n ih =>
      obtain ⟨m, rfl⟩ := Nat.exists_eq_add_of_lt hn
      refine (Outlasts.refl _).bind fun _ => .ite (.refl _) ?_
      refine (Outlasts.refl _).bind fun _ => .ite (.refl _) ?_
      refine (Outlasts.refl _).bind fun _ => .ite (.refl _) ?_
      exact (Outlasts.refl _).bind fun _ => ih (by omega)

theorem synchronize_outlasts (start : Nat) :
    Outlasts ((gait ts).synchronize n' start) ((gait ts).synchronize n start) :=
  (Outlasts.refl _).bind fun _ =>
    .ite ((Outlasts.refl _).bind fun _ => skip_outlasts ts hn) (skip_outlasts ts hn)

theorem segment_outlasts : Outlasts ((gait ts).segment n') ((gait ts).segment n) :=
  (Outlasts.refl _).bind fun start => .rescue _ (statement_outlasts ts hn) fun _ =>
    (synchronize_outlasts ts hn start).bind fun _ => .refl _

theorem segments_outlasts {m m' : Nat} (hm : m ≤ m') :
    Outlasts ((gait ts).segments n' m') ((gait ts).segments n m) := by
  induction m generalizing m' with
  | zero => exact .endless _
  | succ m ih =>
      obtain ⟨k, rfl⟩ := Nat.exists_eq_add_of_lt hm
      refine (Outlasts.refl _).bind fun _ => .ite (.refl _) ?_
      refine (Outlasts.noting _ (segment_outlasts ts hn)).bind fun _ => ?_
      exact (ih (by omega)).bind fun _ => .refl _

theorem wholeExpression_outlasts :
    Outlasts ((gait ts).wholeExpression n') ((gait ts).wholeExpression n) :=
  .rescue _ ((expression_outlasts ts hn hn).bind fun _ => .refl _) fun _ => .refl _

theorem answer_outlasts (q : Cursor.Call) :
    Outlasts ((gait ts).answer n' q) ((gait ts).answer n q) := by
  cases q with
  | parse => exact .noting _ ((segments_outlasts ts hn hn).bind fun _ => .refl _)
  | parseExpression => exact .noting _ ((wholeExpression_outlasts ts hn).bind fun _ => .refl _)
  | rewind => exact .refl _

theorem answerAll_outlasts (qs : List Cursor.Call) :
    Outlasts (answerAll ts n' qs) (answerAll ts n qs) := by
  induction qs with
  | nil => exact .refl _
  | cons q qs ih =>
      exact (answer_outlasts ts hn q).bind fun _ => ih.bind fun _ => .refl _

end

end

end MarkedWalk

namespace TokenStream
open Cursor

/-- Whatever is called, the index of a cursor stays in the stream and the marks that it
leaves are in order. The calls are answered and leave the same marks under every bound
on loops and nesting that exceeds the number of tokens in front of the first end token. -/
theorem cursor_marks_in_order (ts : List Token) (h : Closed ts) :
    ∃ s, TokenStream.ofTokens? ts = some s ∧
      ∀ qs, ∃ marks, ∀ r n, ts.findIdx (·.kind = .eof) < n →
        MarkedWalk.answerAll ts n qs ⟨0, []⟩ =
            (.ok (answers r (start s) qs), ⟨(after r (start s) qs).2.pos, marks⟩) ∧
          Leads (ts.findIdx (·.kind = .eof)) 0 marks (after r (start s) qs).2.pos := by
  obtain ⟨w, stop, behind, rfl, hw, hstop, hidx⟩ := h.exists_append
  have hbehind := (closed_append_cons w stop behind).mp h
  have hshows : (Window.mk (w ++ stop :: behind) 0 w.length).Shows ⟨w, stop⟩ :=
    ⟨⟨behind, rfl⟩, rfl, hw, hstop⟩
  have hanswer {n : Nat} (hn : w.length < n) (r : Reporter) (qs : List Call) :=
    MarkedWalk.answerAll_eq hshows rfl hn (Nat.zero_le _) r qs []
  refine ⟨⟨w, stop⟩, ofTokens?_append_cons hw hstop hbehind, fun qs => ?_⟩
  rw [hidx]
  obtain ⟨marks, hleast, _⟩ := hanswer (Nat.lt_succ_self w.length) Reporter.fresh qs
  refine ⟨marks, fun r n hn => ?_⟩
  obtain ⟨new, hrun, hleads⟩ := hanswer hn r qs
  -- The least bound is not reached, so every other one leaves what it does.
  obtain rfl : marks = new := by
    rcases MarkedWalk.answerAll_outlasts (w ++ stop :: behind) hn qs ⟨0, []⟩ with
      ⟨k, hend⟩ | hsame
    · rw [hleast] at hend
      cases hend
    · rw [hsame, hleast] at hrun
      exact congrArg (fun x => x.2.marks) hrun
  exact ⟨hrun, hleads⟩

/-- An expression that fails, the rest as a program, and all of it once more. -/
theorem cursor_marks_in_order_again :
    Closed brokenSumThenPrint ∧
      ∃ marks, MarkedWalk.answerAll brokenSumThenPrint 7
          [.parseExpression, .parse, .rewind, .parse] ⟨0, []⟩ =
        (.ok [.expression none,
          .program ⟨[.print (.literal .nil)], [⟨.operand, ⟨.semicolon, ";", .nil, 1⟩⟩]⟩,
          .nothing,
          .program ⟨[.print (.literal .nil)], [⟨.operand, ⟨.semicolon, ";", .nil, 1⟩⟩]⟩],
          ⟨6, marks⟩) ∧
        Leads 6 0 marks 6 := by
  have h : Closed brokenSumThenPrint := ⟨_, rfl, rfl⟩
  obtain ⟨s, hs, hcalls⟩ := cursor_marks_in_order _ h
  obtain rfl := Option.some.inj hs
  obtain ⟨marks, hmarks⟩ := hcalls [.parseExpression, .parse, .rewind, .parse]
  exact ⟨h, marks, hmarks Reporter.fresh 7 (by decide)⟩

end TokenStream

end Lox

import Lox.Proofs.Reader

/-!
# Readers against the grammar

Whatever a reader takes off the front of some tokens, the grammar derives; and
whatever the grammar derives, the reader takes, provided that no operator
behind it can continue it. The bounds on nesting and on chains play no part in
the first direction; in the second they may be anything that covers the derived
tokens.
-/
namespace Lox

namespace Expr
open Reader

/-- A reader that takes nothing but phrases of one sort. -/
def Sound (p : Phrase) (r : Reader Expr) : Prop :=
  ∀ ts e rest, r ts = .ok (e, rest) → ∃ w, ts = w ++ rest ∧ Derives p w e

theorem start_eq_operator {t : Token} (h : start t = .operator) :
    t.kind ∈ [Kind.bang, Kind.minus] := by
  unfold start at h
  cases hk : t.kind <;> simp [hk] at h ⊢

theorem start_eq_opening {t : Token} (h : start t = .opening) : t.kind = .leftParen := by
  unfold start at h
  cases hk : t.kind <;> simp [hk] at h ⊢

theorem start_eq_value {t : Token} {v : Value} (h : start t = .value v) :
    Derives .primary [t] (literal v) := by
  unfold start at h
  cases hk : t.kind <;> simp only [hk, reduceCtorEq, Start.value.injEq] at h <;> subst h
  · exact .string hk
  · exact .number hk
  · exact .false hk
  · exact .nil hk
  · exact .true hk

theorem readUnary_sound {nested : Reader Expr} (hn : Sound .expression nested) :
    Sound .unary (readUnary nested) := by
  intro ts
  induction ts with
  | nil =>
      intro e rest h
      rw [readUnary_nil] at h
      cases h
  | cons t ts ih =>
      intro e rest h
      rw [readUnary_cons] at h
      cases hs : start t with
      | operator =>
          simp only [hs] at h
          obtain ⟨e', mid, hmid, hok⟩ := andThen_eq_ok h
          cases hok
          obtain ⟨w, rfl, hw⟩ := ih e' rest hmid
          exact ⟨t :: w, rfl, .apply (start_eq_operator hs) hw⟩
      | value v =>
          simp only [hs] at h
          cases h
          exact ⟨[t], rfl, .operand (start_eq_value hs)⟩
      | opening =>
          simp only [hs] at h
          obtain ⟨e', mid, hmid, hok⟩ := andThen_eq_ok h
          obtain ⟨u, rfl, hu, rfl⟩ := expect_eq_ok hok
          obtain ⟨w, rfl, hw⟩ := hn ts e' _ hmid
          refine ⟨t :: (w ++ [u]), by simp, ?_⟩
          exact .operand (.group (start_eq_opening hs) hw hu)
      | refused =>
          simp only [hs] at h
          cases h

theorem readChain_sound {l : Level} {operand : Reader Expr} (ho : Sound l.operand operand)
    (n : Nat) (left : Expr) : Sound (.tail l left) (readChain l operand n left) := by
  induction n generalizing left with
  | zero =>
      intro ts e rest h
      rw [readChain_zero] at h
      cases h
      exact ⟨[], rfl, .stop⟩
  | succ n ih =>
      intro ts e rest h
      cases ts with
      | nil =>
          rw [readChain_nil] at h
          cases h
          exact ⟨[], rfl, .stop⟩
      | cons t ts =>
          cases ht : l.has t.kind with
          | false =>
              rw [readChain_of_not_has ht] at h
              cases h
              exact ⟨[], rfl, .stop⟩
          | true =>
              rw [readChain_of_has ht] at h
              obtain ⟨right, mid, hmid, hrest⟩ := andThen_eq_ok h
              obtain ⟨w, rfl, hw⟩ := ho ts right mid hmid
              obtain ⟨v, rfl, hv⟩ := ih _ mid e rest hrest
              refine ⟨t :: (w ++ v), by simp, ?_⟩
              exact .join ((l.has_iff t.kind).mp ht) hw hv

theorem readLevel_sound {l : Level} {operand : Reader Expr} (ho : Sound l.operand operand)
    (n : Nat) : Sound (.level l) (readLevel n l operand) := by
  intro ts e rest h
  rw [readLevel_eq] at h
  obtain ⟨left, mid, hmid, hrest⟩ := andThen_eq_ok h
  obtain ⟨w, rfl, hw⟩ := ho ts left mid hmid
  obtain ⟨v, rfl, hv⟩ := readChain_sound ho n left mid e rest hrest
  exact ⟨w ++ v, by simp, .level hw hv⟩

theorem readWithin_sound (n depth : Nat) : Sound .expression (readWithin n depth) := by
  refine readWithin_induct ?_ ?_ ?_ depth
  · intro ts e rest h
    rw [readWithin_zero] at h
    cases h
  · intro nested hn
    exact readUnary_sound hn
  · intro l operand ho
    exact readLevel_sound ho n

/-- Whatever is read as an expression is one. -/
theorem read_sound : Sound .expression read :=
  fun ts => readWithin_sound ts.length (ts.length + 1) ts

/-- The operands of a level, read within bounds. -/
def readOperand (n depth : Nat) : Level → Reader Expr
  | .factor => readUnary (readWithin n depth)
  | .term => readLevel n .factor (readUnary (readWithin n depth))
  | .comparison => readLevel n .term (readLevel n .factor (readUnary (readWithin n depth)))
  | .equality =>
      readLevel n .comparison
        (readLevel n .term (readLevel n .factor (readUnary (readWithin n depth))))

/-- The reader of a phrase. A repetition has the bound `m` of its own, since the
operators behind each other share the bound that their operands do not. -/
def Phrase.reader (n depth m : Nat) : Phrase → Reader Expr
  | level l => readLevel n l (readOperand n depth l)
  | tail l left => readChain l (readOperand n depth l) m left
  | unary => readUnary (readWithin n depth)
  | primary => readUnary (readWithin n depth)

theorem reader_operand (n depth m : Nat) (l : Level) :
    l.operand.reader n depth m = readOperand n depth l := by
  cases l <;> rfl

theorem reader_expression (n depth m : Nat) :
    Phrase.expression.reader n depth m = readWithin n (depth + 1) := by
  rfl

theorem readUnary_of_value {t : Token} {v : Value} (h : start t = .value v)
    (nested : Reader Expr) (ts : List Token) :
    readUnary nested (t :: ts) = .ok (literal v, ts) := by
  rw [readUnary_cons, h]

/-- A chain goes no further than an operator that is not its own. -/
theorem readChain_of_endsBefore {l : Level} {rest : List Token}
    (h : (Phrase.level l).EndsBefore rest) (operand : Reader Expr) (n : Nat) (left : Expr) :
    readChain l operand n left rest = .ok (left, rest) := by
  cases rest with
  | nil => exact readChain_nil l operand n left
  | cons t rest =>
      have hnot := h t rfl l (Nat.le_refl _)
      rw [← l.has_iff, Bool.not_eq_true] at hnot
      exact readChain_of_not_has hnot operand n left rest

/-- Every derivation is found by the reader of its phrase. -/
theorem Derives.reader_eq_ok {p : Phrase} {w : List Token} {e : Expr} (h : Derives p w e)
    (n depth m : Nat) {rest : List Token} (hn : w.length ≤ n) (hd : w.length ≤ depth)
    (hm : w.length ≤ m) (hend : p.EndsBefore rest) :
    p.reader n depth m (w ++ rest) = .ok (e, rest) := by
  induction h generalizing n depth m rest with
  | @level l w v left e _ hv ihw ihv =>
      simp only [List.length_append] at hn hd
      have hw := ihw n depth n (by omega) (by omega) (by omega) (hend.operand hv)
      rw [reader_operand] at hw
      have hv := ihv n depth n (by omega) (by omega) (by omega) hend
      rw [Phrase.reader, readLevel_eq, List.append_assoc, andThen_of_ok hw]
      exact hv
  | stop => exact readChain_of_endsBefore hend _ m _
  | @join l left right e op w v hop _ hv ihw ihv =>
      simp only [List.length_cons, List.length_append] at hn hd hm
      obtain ⟨m, rfl⟩ : ∃ k, m = k + 1 := ⟨m - 1, by omega⟩
      have hw := ihw n depth n (by omega) (by omega) (by omega) (hend.operand hv)
      rw [reader_operand] at hw
      have hv := ihv n depth m (by omega) (by omega) (by omega) hend
      have hhas := (l.has_iff op.kind).mpr hop
      rw [Phrase.reader, List.cons_append, List.append_assoc, readChain_of_has hhas,
        andThen_of_ok hw]
      exact hv
  | @apply op w e hop _ ih =>
      simp only [List.length_cons] at hn hd
      have hw := ih n depth n (by omega) (by omega) (by omega) hend
      have hs : start op = .operator := by
        simp only [List.mem_cons, List.not_mem_nil, or_false] at hop
        rcases hop with hk | hk <;> simp only [start, hk]
      rw [Phrase.reader, List.cons_append, readUnary_cons, hs]
      exact andThen_of_ok hw _
  | operand _ ih => exact ih n depth m hn hd hm hend
  | number hk => exact readUnary_of_value (by simp only [start, hk]) _ rest
  | string hk => exact readUnary_of_value (by simp only [start, hk]) _ rest
  | true hk => exact readUnary_of_value (by simp only [start, hk]) _ rest
  | false hk => exact readUnary_of_value (by simp only [start, hk]) _ rest
  | nil hk => exact readUnary_of_value (by simp only [start, hk]) _ rest
  | @group opening closing w e hopen _ hclose ih =>
      simp only [List.length_cons, List.length_append, List.length_nil] at hn hd
      obtain ⟨d, rfl⟩ : ∃ k, depth = k + 1 := ⟨depth - 1, by omega⟩
      have hafter : Phrase.expression.EndsBefore (closing :: rest) :=
        Phrase.endsBefore_cons _ fun l => by cases l <;> simp [Level.operators, hclose]
      have hw := ih n d n (by omega) (by omega) (by omega) hafter
      rw [reader_expression] at hw
      have hs : start opening = .opening := by simp only [start, hopen]
      rw [Phrase.reader, List.cons_append, List.append_assoc, readUnary_cons, hs]
      simp only [List.cons_append, List.nil_append]
      rw [andThen_of_ok hw]
      exact expect_of_kind hclose _ _ rest

/-- Every expression is read, and read whole. -/
theorem Derives.read_eq_ok {w rest : List Token} {e : Expr} (h : Derives .expression w e)
    (hend : Phrase.expression.EndsBefore rest) : read (w ++ rest) = .ok (e, rest) := by
  have hle : w.length ≤ (w ++ rest).length := by simp
  have hr := h.reader_eq_ok _ _ _ hle hle hle hend
  rwa [reader_expression] at hr

theorem readAll_eq_ok_iff (w : List Token) (e : Expr) :
    readAll w = .ok e ↔ Derives .expression w e := by
  constructor
  · intro h
    rw [readAll_eq] at h
    cases hr : read w with
    | error x => simp [hr] at h
    | ok x =>
        obtain ⟨e', rest⟩ := x
        cases rest with
        | cons t rest => simp [hr] at h
        | nil =>
            simp only [hr, Except.ok.injEq] at h
            subst h
            obtain ⟨v, hv, hd⟩ := read_sound w e' [] hr
            rw [List.append_nil] at hv
            exact hv ▸ hd
  · intro h
    have hr := h.read_eq_ok (Phrase.endsBefore_nil _)
    rw [List.append_nil] at hr
    rw [readAll_eq, hr]

end Expr

namespace Stmt
open Reader

/-- Whatever is read as a statement is one. -/
theorem read_sound {ts rest : List Token} {s : Stmt} (h : read ts = .ok (s, rest)) :
    ∃ w, ts = w ++ rest ∧ Derives w s := by
  have expr {us : List Token} (h : readExpression us = .ok (s, rest)) :
      ∃ w, us = w ++ rest ∧ Derives w s := by
    rw [readExpression_eq] at h
    obtain ⟨e, mid, hmid, hok⟩ := andThen_eq_ok h
    obtain ⟨t, rfl, ht, rfl⟩ := expect_eq_ok hok
    obtain ⟨w, rfl, hw⟩ := Expr.read_sound us e _ hmid
    exact ⟨w ++ [t], by simp, .expression hw ht⟩
  cases ts with
  | nil => exact expr h
  | cons t ts =>
      by_cases hk : t.kind = .printWord
      · rw [read_of_print hk, readPrint_eq] at h
        obtain ⟨e, mid, hmid, hok⟩ := andThen_eq_ok h
        obtain ⟨u, rfl, hu, rfl⟩ := expect_eq_ok hok
        obtain ⟨w, rfl, hw⟩ := Expr.read_sound ts e _ hmid
        exact ⟨t :: (w ++ [u]), by simp, .print hk hw hu⟩
      · rw [read_cons, if_neg hk] at h
        exact expr h

/-- Every statement is read, and read whole, whatever stands behind it. -/
theorem Derives.read_eq_ok {w : List Token} {s : Stmt} (h : Derives w s) (rest : List Token) :
    read (w ++ rest) = .ok (s, rest) := by
  have ends {t : Token} (ht : t.kind = .semicolon) :
      Expr.Phrase.expression.EndsBefore (t :: rest) :=
    Expr.Phrase.endsBefore_cons _ fun l => by cases l <;> simp [Expr.Level.operators, ht]
  cases h with
  | @print word semicolon w e hword hw hsemi =>
      have he := hw.read_eq_ok (ends hsemi)
      rw [List.cons_append, List.append_assoc, read_of_print hword, readPrint_eq]
      simp only [List.cons_append, List.nil_append]
      rw [andThen_of_ok he]
      exact expect_of_kind hsemi _ _ rest
  | @expression semicolon w e hw hsemi =>
      have he := hw.read_eq_ok (ends hsemi)
      -- No expression begins with `print`, so the reader does not mistake this statement.
      have hnot : ∀ t ∈ (w ++ [semicolon] ++ rest).head?, t.kind ≠ .printWord := by
        intro t ht hk
        have hr : Expr.start t = .refused := by simp only [Expr.start, hk]
        cases w with
        | nil =>
            simp only [List.nil_append, List.cons_append, List.head?_cons,
              Option.mem_some_iff] at ht
            rw [ht, hk] at hsemi
            cases hsemi
        | cons u w =>
            simp only [List.cons_append, List.head?_cons, Option.mem_some_iff] at ht
            subst ht
            rw [List.cons_append, Expr.read_of_refused hr] at he
            cases he
      rw [read_of_not_print hnot, readExpression_eq, List.append_assoc]
      simp only [List.cons_append, List.nil_append]
      rw [andThen_of_ok he]
      exact expect_of_kind hsemi _ _ rest

theorem Derives.ne_nil {w : List Token} {s : Stmt} (h : Derives w s) : w ≠ [] := by
  cases h <;> simp

end Stmt

end Lox

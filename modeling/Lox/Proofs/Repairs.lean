import Lox.Proofs.ValidPrefix

/-!
# Repairs

The message of a syntax error names something that was missing. It is the truth:
with that put behind the tokens read so far, the statement can go on, or is complete
if it is its semicolon that was missing. It is also the whole truth, since no other
message would have been right. What is pending where the statement stopped decides
both which token repairs it and which message is given.
-/
namespace Lox

theorem Expectation.message_injective {x y : Expectation} (h : x.message = y.message) : x = y := by
  cases x <;> cases y <;> simp [message] at h ⊢

namespace Expr.Pending
variable {t : Token} {last : Expectation}

/-- A literal goes on exactly where an operand is due. -/
theorem exists_step_literal (h : t.kind ∈ literalKinds) (hlast : last ≠ .operand) (q : Pending) :
    (∃ q', q.step t = some q') ↔ q.expected last = .operand := by
  have hjoins : joins t.kind = false := by
    revert h
    cases t.kind <;> decide
  have hclosing : t.kind ≠ .rightParen := by
    intro hk
    simp [hk, literalKinds] at h
  cases q using byCases with
  | due n => simp [step_literal h, expected]
  | settled => simp [step_settled hjoins, expected, hlast]
  | inner n => simp [step_inner hjoins hclosing, expected]

/-- A parenthesis is closed exactly where one is open and no operand is due. -/
theorem exists_step_closing (h : t.kind = .rightParen) (hlast : last ≠ .closingParen)
    (q : Pending) : (∃ q', q.step t = some q') ↔ q.expected last = .closingParen := by
  have hjoins : joins t.kind = false := by rw [h]; rfl
  cases q using byCases with
  | due n => simp [step_due, start, h, expected]
  | settled => simp [step_settled hjoins, expected, hlast]
  | inner n => simp [step_closing h, expected]

theorem step_eq_none_of_semicolon (h : t.kind = .semicolon) (q : Pending) : q.step t = none := by
  have hjoins : joins t.kind = false := by rw [h]; rfl
  cases q using byCases with
  | due n => simp [step_due, start, h]
  | settled => exact step_settled hjoins
  | inner n => exact step_inner hjoins (by rw [h]; decide) n

end Expr.Pending

namespace Stmt
open Pending

/-- Tokens that begin with `print`. -/
def Prints (u : List Token) : Prop := ∃ t ∈ u.head?, t.kind = .printWord

/-- The repair that an expectation names works behind the tokens `u`: a literal, a
closing parenthesis, or the semicolon of a statement with or without `print`. -/
def Mended (u : List Token) (literal closing semicolon : Token) : Expectation → Prop
  | .operand => Viable (u ++ [literal])
  | .closingParen => Viable (u ++ [closing])
  | .semicolonAfterValue => Prints u ∧ ∃ s, Derives (u ++ [semicolon]) s
  | .semicolonAfterExpression => ¬ Prints u ∧ ∃ s, Derives (u ++ [semicolon]) s
  | .endOfExpression => False

namespace Pending

/-- A statement goes on printing, or not printing, up to its semicolon. -/
theorem printing_eq {q q' : Expr.Pending} {b b' : Bool} {w : List Token}
    (h : w.foldlM step (inside b q) = some (inside b' q')) : b = b' := by
  induction w generalizing q with
  | nil =>
      cases h
      rfl
  | cons t w ih =>
      obtain ⟨mid, ht, hw⟩ := exists_foldlM_of_append (u := [t]) h
      rw [foldlM_singleton] at ht
      cases hs : q.step t with
      | some q₁ =>
          rw [step_inside hs] at ht
          cases ht
          exact ih hw
      | none =>
          simp only [step, hs] at ht
          split at ht
          · cases ht
            obtain rfl := eq_nil_of_foldlM_complete hw
            cases hw
          · cases ht

/-- Whether a statement prints is decided by its first token. -/
theorem prints_iff {u : List Token} {b : Bool} {q : Expr.Pending}
    (h : u.foldlM step beginning = some (inside b q)) : Prints u ↔ b = true := by
  cases u with
  | nil => cases h
  | cons t u =>
      obtain ⟨mid, ht, hu⟩ := exists_foldlM_of_append (u := [t]) h
      rw [foldlM_singleton] at ht
      have hprints : Prints (t :: u) ↔ t.kind = .printWord := by simp [Prints]
      rw [hprints]
      by_cases hk : t.kind = .printWord
      · rw [step_print hk] at ht
        cases ht
        simp [hk, ← printing_eq hu]
      · cases hs : Expr.Pending.outset.step t with
        | none => simp [step, hs, hk] at ht
        | some q₁ =>
            simp only [step, hs, Option.some.injEq] at ht
            subst ht
            simp [hk, ← printing_eq hu]

variable {t : Token}

theorem missing_ne_operand (b : Bool) : missing b ≠ .operand := by
  cases b <;> decide

theorem missing_ne_closingParen (b : Bool) : missing b ≠ .closingParen := by
  cases b <;> decide

theorem exists_step_beginning (h : t.kind ≠ .printWord) :
    (∃ q, beginning.step t = some q) ↔ ∃ q, Expr.Pending.outset.step t = some q := by
  cases hs : Expr.Pending.outset.step t <;> simp [step, hs, h]

theorem exists_step_inside (h : t.kind ≠ .semicolon) (b : Bool) (q : Expr.Pending) :
    (∃ q', (inside b q).step t = some q') ↔ ∃ q', q.step t = some q' := by
  cases hs : q.step t <;> simp [step, hs, h]

/-- Apart from `print` and the semicolon a token goes on in a statement where it does
in the expression of that statement. -/
theorem exists_step_iff {x : Expectation} (hprint : t.kind ≠ .printWord)
    (hsemicolon : t.kind ≠ .semicolon)
    (hx : ∀ (b : Bool) (q : Expr.Pending),
      (∃ q', q.step t = some q') ↔ q.expected (missing b) = x) (q : Pending) :
    (∃ q', q.step t = some q') ↔ q.expected = some x := by
  cases q with
  | beginning =>
      rw [exists_step_beginning hprint, hx false]
      simp [expected, Expr.Pending.expected]
  | inside b q =>
      rw [exists_step_inside hsemicolon, hx b]
      simp [expected]
  | complete => simp [step, expected]

theorem exists_step_literal (h : t.kind ∈ Expr.literalKinds) (q : Pending) :
    (∃ q', q.step t = some q') ↔ q.expected = some .operand := by
  have hkind : t.kind ≠ .printWord ∧ t.kind ≠ .semicolon := by
    constructor <;> intro hk <;> simp [hk, Expr.literalKinds] at h
  refine exists_step_iff hkind.1 hkind.2 (fun b => ?_) q
  exact Expr.Pending.exists_step_literal h (missing_ne_operand b)

theorem exists_step_closing (h : t.kind = .rightParen) (q : Pending) :
    (∃ q', q.step t = some q') ↔ q.expected = some .closingParen := by
  refine exists_step_iff (by simp [h]) (by simp [h]) (fun b => ?_) q
  exact Expr.Pending.exists_step_closing h (missing_ne_closingParen b)

/-- A semicolon completes a statement exactly where its expression may end. -/
theorem step_eq_complete_iff (h : t.kind = .semicolon) (q : Pending) :
    q.step t = some complete ↔ ∃ b, q = inside b .settled := by
  cases q with
  | beginning => simp [step, Expr.Pending.step_eq_none_of_semicolon h, h]
  | inside b q => simp [step, Expr.Pending.step_eq_none_of_semicolon h, h]
  | complete => simp [step]

theorem expected_eq_missing_iff (q : Pending) (b : Bool) :
    q.expected = some (missing b) ↔ q = inside b .settled := by
  cases q with
  | beginning => cases b <;> simp [expected, missing]
  | inside b' q =>
      cases q using Expr.Pending.byCases with
      | due n => cases b <;> simp [expected, Expr.Pending.expected, missing]
      | settled => cases b <;> cases b' <;> simp [expected, Expr.Pending.expected, missing]
      | inner n => cases b <;> simp [expected, Expr.Pending.expected, missing]
  | complete => simp [expected]

/-- No statement asks for the end of an expression. -/
theorem expected_ne_endOfExpression (q : Pending) : q.expected ≠ some .endOfExpression := by
  cases q with
  | beginning => simp [expected]
  | inside b q =>
      cases q using Expr.Pending.byCases with
      | due n => simp [expected, Expr.Pending.expected]
      | settled => cases b <;> simp [expected, Expr.Pending.expected, missing]
      | inner n => simp [expected, Expr.Pending.expected]
  | complete => simp [expected]

end Pending

variable {u : List Token} {q : Pending} (hu : u.foldlM step beginning = some q) {t : Token}
include hu

theorem viable_append_iff : Viable (u ++ [t]) ↔ ∃ q', q.step t = some q' := by
  rw [viable_iff, foldlM_append_of_some hu, foldlM_singleton]

theorem derives_append_iff : (∃ s, Derives (u ++ [t]) s) ↔ q.step t = some complete := by
  rw [derives_iff, foldlM_append_of_some hu, foldlM_singleton]

/-- The statement lacks its semicolon and nothing else. -/
theorem semicolon_completes_iff (ht : t.kind = .semicolon) (b : Bool) :
    ((Prints u ↔ b = true) ∧ ∃ s, Derives (u ++ [t]) s) ↔ q.expected = some (missing b) := by
  rw [derives_append_iff hu, step_eq_complete_iff ht, expected_eq_missing_iff]
  constructor
  · rintro ⟨hprints, b', rfl⟩
    rw [prints_iff hu, Bool.eq_iff_iff.symm] at hprints
    rw [hprints]
  · rintro rfl
    exact ⟨prints_iff hu, b, rfl⟩

/-- The repairs that work are those that what is pending asks for. -/
theorem mended_iff {literal closing semicolon : Token} (hliteral : literal.kind ∈ Expr.literalKinds)
    (hclosing : closing.kind = .rightParen) (hsemicolon : semicolon.kind = .semicolon)
    (x : Expectation) : Mended u literal closing semicolon x ↔ q.expected = some x := by
  cases x with
  | operand => exact (viable_append_iff hu).trans (exists_step_literal hliteral q)
  | closingParen => exact (viable_append_iff hu).trans (exists_step_closing hclosing q)
  | semicolonAfterValue =>
      simpa only [Mended, missing, iff_true] using semicolon_completes_iff hu hsemicolon true
  | semicolonAfterExpression =>
      simpa only [Mended, missing, Bool.false_eq_true, iff_false] using
        semicolon_completes_iff hu hsemicolon false
  | endOfExpression => exact ⟨False.elim, fun h => q.expected_ne_endOfExpression h⟩

end Stmt

namespace TokenStream
open Cursor Stmt

/-- The message of a syntax error in a program names the repair that works behind the
tokens read so far, and no other repair works. -/
theorem message_names_repair (ts : List Token) (h : Closed ts) :
    ∃ s, TokenStream.ofTokens? ts = some s ∧
      ∀ (r : Reporter) (a : Nat), a ≤ ts.findIdx (·.kind = .eof) →
        (r.parse ⟨s, a⟩).value.1.errors = (Cursor.mk s a).failures.map (·.error) ∧
        ∀ f ∈ (Cursor.mk s a).failures, ts[f.stop]? = some f.error.token ∧
          ∀ (u : List Token) (literal closing semicolon : Token), u = ts.extract f.start f.stop →
            literal.kind ∈ [Kind.number, .string, .trueWord, .falseWord, .nilWord] →
            closing.kind = .rightParen → semicolon.kind = .semicolon →
            (f.error.expected.message = "Expect expression." ↔ Viable (u ++ [literal])) ∧
            (f.error.expected.message = "Expect ')' after expression." ↔
              Viable (u ++ [closing])) ∧
            (f.error.expected.message = "Expect ';' after value." ↔
              Prints u ∧ ∃ st, Stmt.Derives (u ++ [semicolon]) st) ∧
            (f.error.expected.message = "Expect ';' after expression." ↔
              ¬ Prints u ∧ ∃ st, Stmt.Derives (u ++ [semicolon]) st) ∧
            ∃! x, Mended u literal closing semicolon x := by
  obtain ⟨w, stop, behind, rfl, hw, hstop, hidx⟩ := h.exists_append
  have hbehind := (closed_append_cons w stop behind).mp h
  refine ⟨⟨w, stop⟩, ofTokens?_append_cons hw hstop hbehind, fun r a ha => ?_⟩
  rw [hidx] at ha
  refine ⟨errors_parse r ⟨⟨w, stop⟩, a⟩, fun f hf => ?_⟩
  obtain ⟨_, hstands⟩ := stands_of_mem_failures ha hf
  have htoken := Segment.getElem?_append_stop w stop behind hstands.stop_le
  refine ⟨by rw [hstands.token, htoken], ?_⟩
  rintro _ literal closing semicolon rfl hliteral hclosing hsemicolon
  obtain ⟨u, q, hdrop, hu, hexpected, _⟩ := Stmt.read_halts hstands.read
  rw [(extract_of_drop hstands.start_le hstands.stop_le hdrop stop behind).1]
  have mended (x : Expectation) : Mended u literal closing semicolon x ↔ f.error.expected = x := by
    rw [mended_iff hu hliteral hclosing hsemicolon, hexpected, Option.some.injEq]
  have names (x : Expectation) :
      f.error.expected.message = x.message ↔ Mended u literal closing semicolon x := by
    rw [mended]
    exact ⟨Expectation.message_injective, congrArg Expectation.message⟩
  refine ⟨names .operand, names .closingParen, names .semicolonAfterValue,
    names .semicolonAfterExpression, f.error.expected, (mended _).mpr rfl, ?_⟩
  intro x hx
  exact ((mended x).mp hx).symm

/-- A `print` statement up to where its parenthesis should be closed. -/
def printOpenNil : List Token :=
  [⟨.printWord, "print", .nil, 1⟩, ⟨.leftParen, "(", .nil, 1⟩, ⟨.nilWord, "nil", .nil, 1⟩]

/-- Behind `print (nil` a parenthesis is missing, and neither an operand nor the
semicolon that stands there. -/
theorem message_names_repair_parenthesis :
    Closed (printOpenNil ++ [⟨.semicolon, ";", .nil, 1⟩, ⟨.eof, "", .nil, 1⟩]) ∧
      Viable (printOpenNil ++ [⟨.rightParen, ")", .nil, 1⟩]) ∧
      ¬ Viable (printOpenNil ++ [⟨.trueWord, "true", .nil, 1⟩]) ∧
      ¬ ∃ st, Stmt.Derives (printOpenNil ++ [⟨.semicolon, ";", .nil, 1⟩]) st := by
  have h : Closed (printOpenNil ++ [⟨.semicolon, ";", .nil, 1⟩, ⟨.eof, "", .nil, 1⟩]) :=
    ⟨_, rfl, rfl⟩
  obtain ⟨s, hs, herrors⟩ := message_names_repair _ h
  obtain rfl := Option.some.inj hs
  obtain ⟨_, hfailures⟩ := herrors Reporter.fresh 0 (Nat.zero_le _)
  obtain ⟨_, hrepairs⟩ :=
    hfailures ⟨0, 3, ⟨.closingParen, ⟨.semicolon, ";", .nil, 1⟩⟩⟩ (.head _)
  obtain ⟨hliteral, hclosing, hvalue, _, _⟩ := hrepairs _ ⟨.trueWord, "true", .nil, 1⟩
    ⟨.rightParen, ")", .nil, 1⟩ ⟨.semicolon, ";", .nil, 1⟩ rfl (by decide) rfl rfl
  refine ⟨h, hclosing.mp rfl, ?_, ?_⟩
  · intro hviable
    exact absurd (hliteral.mpr hviable) (by decide)
  · intro hderives
    exact absurd (hvalue.mpr ⟨⟨_, rfl, rfl⟩, hderives⟩) (by decide)

end TokenStream

end Lox

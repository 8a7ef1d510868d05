import Lox.Proofs.Safety

/-!
# Who is to blame for a runtime error

The trees that are read hold operators of the text and no others, each of them
where the grammar has it. An operator that rejects its operands is therefore one
of a few, and says so in one of three ways. It stands at one place in the text,
and the line breaks in front of that place give the line that is reported.
-/
namespace Lox

/-- The operators that reject operands for some reason. -/
def Rejection.operators : Rejection → List Kind
  | operandNotNumber => [.minus]
  | operandsNotNumbers => [.minus, .star, .slash, .greater, .greaterEqual, .less, .lessEqual]
  | operandsNotAddable => [.plus]
  | unknownUnary => []
  | unknownBinary => []

namespace Value

theorem applyUnary_error {op : Token} {v : Value} {x : RuntimeError}
    (hop : op.kind ∈ [Kind.bang, .minus]) (h : v.applyUnary op = .error x) :
    x.token = op ∧ op.kind ∈ x.rejection.operators := by
  unfold applyUnary at h
  split at h
  · cases h
  · cases h
  · rename_i hminus _
    cases h
    exact ⟨rfl, List.mem_singleton.mpr hminus⟩
  · rename_i hbang hminus _
    rcases List.mem_pair.mp hop with hk | hk
    · exact absurd hk hbang
    · exact absurd hk hminus

theorem add_error {op : Token} {v w : Value} {x : RuntimeError} (h : v.add op w = .error x) :
    x = ⟨op, .operandsNotAddable⟩ := by
  unfold add at h
  split at h
  · cases h
  · cases h
  · exact (Except.error.inj h).symm

theorem applyNumeric_error {op : Token} {v w : Value} {x : RuntimeError}
    (hop : op.kind ∈ Rejection.operandsNotNumbers.operators)
    (h : v.applyNumeric op w = .error x) : x = ⟨op, .operandsNotNumbers⟩ := by
  unfold applyNumeric at h
  split at h
  · split at h
    · cases h
    · rename_i hnone
      simp only [Rejection.operators, List.mem_cons, List.not_mem_nil, or_false] at hop
      rcases hop with hk | hk | hk | hk | hk | hk | hk <;> rw [hk] at hnone <;> cases hnone
  · exact (Except.error.inj h).symm

theorem numeric_or_other (l : Expr.Level) : ∀ k ∈ l.operators, k = .equalEqual ∨ k = .bangEqual ∨
    k = .plus ∨ k ∈ Rejection.operandsNotNumbers.operators := by
  cases l <;> decide

theorem applyBinary_error {op : Token} {v w : Value} {x : RuntimeError} {l : Expr.Level}
    (hop : op.kind ∈ l.operators) (h : v.applyBinary op w = .error x) :
    x.token = op ∧ op.kind ∈ x.rejection.operators := by
  unfold applyBinary at h
  split at h
  · cases h
  · cases h
  · rename_i hplus
    rw [add_error h]
    exact ⟨rfl, List.mem_singleton.mpr hplus⟩
  · rename_i hequal hbang hplus
    have hnumeric : op.kind ∈ Rejection.operandsNotNumbers.operators := by
      rcases numeric_or_other l op.kind hop with hk | hk | hk | hk
      · exact absurd hk hequal
      · exact absurd hk hbang
      · exact absurd hk hplus
      · exact hk
    rw [applyNumeric_error hnumeric h]
    exact ⟨rfl, hnumeric⟩

end Value

namespace Expr

/-- An expression whose operators are among the tokens `w`, each of them of a
kind that the grammar has there. -/
def Built (w : List Token) : Expr → Prop
  | literal _ => True
  | grouping e => e.Built w
  | unary op e => op ∈ w ∧ op.kind ∈ [Kind.bang, .minus] ∧ e.Built w
  | binary l op r => op ∈ w ∧ (∃ lv : Level, op.kind ∈ lv.operators) ∧ l.Built w ∧ r.Built w

/-- What stands in front of a repetition is built like the rest. -/
def Phrase.Behind (w : List Token) : Phrase → Prop
  | tail _ left => left.Built w
  | _ => True

theorem Level.operand_behind (l : Level) (w : List Token) : l.operand.Behind w := by
  cases l <;> trivial

/-- A phrase is built from any tokens that hold those it derives. -/
theorem Derives.built {p : Phrase} {v w : List Token} {e : Expr} (h : Derives p v e)
    (hp : p.Behind w) (hsub : v ⊆ w) : e.Built w := by
  -- The tokens `v` are taken apart along the derivation while `w` stays.
  induction h with
  | @level l v₁ v₂ left e _ _ ihleft ihtail =>
      have hleft : left.Built w :=
        ihleft (l.operand_behind w) fun t ht => hsub (List.mem_append_left _ ht)
      exact ihtail hleft fun t ht => hsub (List.mem_append_right _ ht)
  | stop => exact hp
  | @join l left right e op v₁ v₂ hop _ _ ihright ihtail =>
      have hright : right.Built w := ihright (l.operand_behind w) fun t ht =>
        hsub (List.mem_cons_of_mem _ (List.mem_append_left _ ht))
      have hjoined : (binary left op right).Built w := ⟨hsub (by simp), ⟨l, hop⟩, hp, hright⟩
      exact ihtail hjoined fun t ht =>
        hsub (List.mem_cons_of_mem _ (List.mem_append_right _ ht))
  | apply hop _ ih =>
      exact ⟨hsub (by simp), hop, ih trivial fun t ht => hsub (List.mem_cons_of_mem _ ht)⟩
  | operand _ ih => exact ih trivial hsub
  | number _ => trivial
  | string _ => trivial
  | true _ => trivial
  | false _ => trivial
  | nil _ => trivial
  | group _ _ _ ih =>
      exact ih trivial fun t ht =>
        hsub (List.mem_cons_of_mem _ (List.mem_append_left _ ht))

theorem Built.eval_error {w : List Token} {e : Expr} {x : RuntimeError} (hb : e.Built w)
    (h : e.eval = .error x) : x.token ∈ w ∧ x.token.kind ∈ x.rejection.operators := by
  induction e with
  | literal v => cases h
  | grouping e ih => exact ih hb h
  | unary op e ih =>
      obtain ⟨hmem, hop, he⟩ := hb
      rw [eval] at h
      split at h
      · obtain ⟨htoken, hkind⟩ := Value.applyUnary_error hop h
        rw [htoken]
        exact ⟨hmem, hkind⟩
      · rename_i hx
        cases h
        exact ih he hx
  | binary l op r ihl ihr =>
      obtain ⟨hmem, ⟨lv, hop⟩, hl, hr⟩ := hb
      rw [eval] at h
      split at h
      · rename_i hx
        cases h
        exact ihl hl hx
      · split at h
        · rename_i hx
          cases h
          exact ihr hr hx
        · obtain ⟨htoken, hkind⟩ := Value.applyBinary_error hop h
          rw [htoken]
          exact ⟨hmem, hkind⟩

end Expr

theorem Stmt.Derives.built {v w : List Token} {s : Stmt} (h : Stmt.Derives v s) (hsub : v ⊆ w) :
    s.expr.Built w := by
  cases h with
  | print _ he _ =>
      exact he.built trivial fun t ht =>
        hsub (List.mem_cons_of_mem _ (List.mem_append_left _ ht))
  | expression he _ => exact he.built trivial fun t ht => hsub (List.mem_append_left _ ht)

namespace Segment

theorem Cuts.built {s : TokenStream} {a : Nat} {xs : List Segment} (h : Cuts s a xs) :
    ∀ st ∈ xs.filterMap statement?, st.expr.Built s.body := by
  induction h with
  | done => simp
  | @next a b x xs _ _ hx _ ih =>
      cases hx with
      | statement hd =>
          intro st hst
          rcases List.mem_cons.mp hst with rfl | hst
          · exact hd.built fun t ht => List.mem_of_mem_take (List.mem_of_mem_drop ht)
          · exact ih st hst
      | error => exact ih

end Segment

namespace Scan
open Piece

theorem built_of_mem {source : String} {s : Stmt}
    (hs : s ∈ (ofText source).program.statements) : s.expr.Built (words source) := by
  rw [program_ofText] at hs
  exact (Segment.cuts_all _ (Nat.zero_le _)).built s hs

/-- A token that is spelled in a text, at one place. In front of it stand the
characters `before`, and as many tokens as they give. -/
structure Occurs (source : String) (before : List Char) (t : Token) : Prop where
  spelled : ∃ after, source.toList = before ++ t.lexeme.toList ++ after
  listed : ∃ front p back, Decomposes source.toList (front ++ p :: back) ∧
    before = front.flatMap text ∧ Spells p t ∧
    (ofText source).tokens[(front.filter bearsToken).length]? = some t

/-- Words other than strings end on the line on which they begin. -/
theorem occurs_of_mem {source : String} {t : Token} (ht : t ∈ words source)
    (hkind : t.kind ≠ .string) :
    ∃ before, Occurs source before t ∧ t.line = 1 + before.count '\n' := by
  obtain ⟨front, p, back, rest, hps, hp, hspells, hline, hindex⟩ := exists_spelled_of_mem ht
  -- A word carries the line on which it ends, which may differ for a string only.
  rw [hspells.newlines_eq_zero hp hkind] at hline
  have hd := pieces_decomposes source.toList
  rw [hps] at hd
  have htext := pieces_text source.toList
  rw [hps, List.flatMap_append, List.flatMap_cons] at htext
  have hlt : (front.filter bearsToken).length < (words source).length :=
    (List.getElem?_eq_some_iff.mp hindex).choose
  refine ⟨front.flatMap text, ?_, hline⟩
  constructor
  · refine ⟨back.flatMap text, ?_⟩
    rw [hspells.1, String.toList_ofList, List.append_assoc, htext]
  · refine ⟨front, p, back, hd, rfl, hspells, ?_⟩
    rw [tokens_ofText, List.getElem?_append_left hlt]
    exact hindex

end Scan

namespace RuntimeError

/-- A runtime error in words, and the operators that say it. -/
theorem message_mem {x : RuntimeError} (h : x.token.kind ∈ x.rejection.operators) :
    (x.message, x.rejection.operators) ∈ [("Operand must be a number.", [Kind.minus]),
      ("Operands must be numbers.",
        [.minus, .star, .slash, .greater, .greaterEqual, .less, .lessEqual]),
      ("Operands must be two numbers or two strings.", [.plus])] := by
  obtain ⟨t, why⟩ := x
  cases why with
  | operandNotNumber => exact .head _
  | operandsNotNumbers => exact .tail _ (.head _)
  | operandsNotAddable => exact .tail _ (.tail _ (.head _))
  | unknownUnary => cases h
  | unknownBinary => cases h

theorem kind_ne_string {x : RuntimeError} (h : x.token.kind ∈ x.rejection.operators) :
    x.token.kind ≠ .string := by
  intro hstring
  rw [hstring] at h
  cases hwhy : x.rejection <;> rw [hwhy] at h <;> exact absurd h (by decide)

theorem report_text (x : RuntimeError) :
    x.report.text = "[line " ++ decimalText x.token.line ++ "] Error: " ++ x.message := by
  simp [report, Report.text, String.append_assoc]

end RuntimeError

namespace Account

theorem exists_error_of_runtimeError {reports : List Report} {ss : List Stmt}
    (h : (of reports ss).outcome = .runtimeError) :
    ∃ s ∈ ss, ∃ x, s.expr.eval = .error x ∧ (of reports ss).reports = [x.report] := by
  cases reports with
  | cons x xs => cases h
  | nil =>
      rw [of] at h ⊢
      obtain ⟨front, back, rfl, _, _, hback⟩ := Stmt.performAll_split ss
      cases back with
      | nil =>
          rw [if_pos hback] at h
          cases h
      | cons s back =>
          obtain ⟨x, hx, hstop⟩ := hback
          refine ⟨s, by simp, x, hx, ?_⟩
          rw [hstop]
          rfl

end Account

namespace Reporter

/-- A run passes every check and reads its tokens at places where there are some.
If it ends with a runtime error, it reports one operator of its text, on the line
on which that operator stands. -/
theorem run_blames_operator (source : String) :
    fresh.runChecked source = .ok (fresh.run source) ∧
      (Scan.ofText source).ReadsInside ∧
      ((fresh.run source).value = .runtimeError →
        ∃ before t message operators, Scan.Occurs source before t ∧
          (∃ s ∈ (Scan.ofText source).program.statements, ∃ why, s.expr.eval = .error ⟨t, why⟩) ∧
          (message, operators) ∈ [("Operand must be a number.", [Kind.minus]),
            ("Operands must be numbers.",
              [.minus, .star, .slash, .greater, .greaterEqual, .less, .lessEqual]),
            ("Operands must be two numbers or two strings.", [.plus])] ∧
          t.kind ∈ operators ∧
          (fresh.run source).reporter.messages =
            ["[line " ++ decimalText (1 + before.count '\n' : Nat) ++ "] Error: " ++ message]) := by
  refine ⟨runChecked_eq fresh source, Scan.readsInside_ofText source, ?_⟩
  obtain ⟨hvalue, _, hmessages⟩ := run_fresh source
  rw [hvalue, hmessages, Account.ofText]
  intro h
  obtain ⟨s, hs, x, hx, hreports⟩ := Account.exists_error_of_runtimeError h
  obtain ⟨hmem, hkind⟩ := (Scan.built_of_mem hs).eval_error hx
  obtain ⟨before, hoccurs, hline⟩ := Scan.occurs_of_mem hmem (RuntimeError.kind_ne_string hkind)
  refine ⟨before, x.token, x.message, x.rejection.operators, hoccurs, ⟨s, hs, x.rejection, hx⟩,
    RuntimeError.message_mem hkind, hkind, ?_⟩
  rw [hreports, List.map_singleton, RuntimeError.report_text, hline]

/-- A difference over two lines, below a string over two lines. -/
def differenceBelowString : String := "print \"a\nb\";\n1 <\n  2 - nil;"

/-- A string ends on the second line, and the operator to blame stands on the
fourth. -/
theorem run_blames_operator_fourth_line :
    (fresh.run differenceBelowString).value = .runtimeError ∧
      ∃ before t, Scan.Occurs differenceBelowString before t ∧
        ∃ message, "[line 4] Error: Operands must be numbers." =
          "[line " ++ decimalText (1 + before.count '\n' : Nat) ++ "] Error: " ++ message := by
  have hvalue : (fresh.run differenceBelowString).value = .runtimeError := by decide +kernel
  have hmessages : (fresh.run differenceBelowString).reporter.messages =
      ["[line 4] Error: Operands must be numbers."] := by decide +kernel
  obtain ⟨before, t, message, _, hoccurs, _, _, _, htext⟩ := (run_blames_operator _).2.2 hvalue
  rw [hmessages] at htext
  exact ⟨hvalue, before, t, hoccurs, message, (List.cons.inj htext).1⟩

end Reporter

end Lox

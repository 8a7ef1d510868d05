import Lox.Proofs.Blame
import Lox.Proofs.Commands
import Lox.Proofs.LineNumbers
import Mathlib.Algebra.GroupWithZero.Nat

/-!
# The lines of the error stream

Every report is written with one line feed behind it. Whether it takes one line then
depends on what it says. A line number and a message have no line feed, but the place
shows the lexeme of the token at which reading stopped, and a string may reach over
several lines. The error stream has one line for each report, and one more for each
line feed in a string at which reading stopped.
-/
namespace Lox

/-- The line feeds in a text. -/
def lineFeeds (s : String) : Nat := s.toList.count '\n'

theorem lineFeeds_append (s t : String) : lineFeeds (s ++ t) = lineFeeds s + lineFeeds t := by
  unfold lineFeeds
  rw [String.toList_append, List.count_append]

theorem lineFeeds_eq_zero_iff (s : String) : lineFeeds s = 0 ↔ '\n' ∉ s.toList :=
  List.count_eq_zero

theorem lineFeeds_decimalText (n : Int) : lineFeeds (decimalText n) = 0 := by
  have hdigits : lineFeeds (String.ofList (Nat.toDigits 10 n.natAbs)) = 0 := by
    rw [lineFeeds_eq_zero_iff, String.toList_ofList]
    intro hmem
    have hdigit := Nat.isDigit_of_mem_toDigits (by decide) (by decide) hmem
    exact absurd hdigit (by decide)
  have hsign : lineFeeds (if n < 0 then "-" else "") = 0 := by
    split <;> rfl
  rw [decimalText, lineFeeds_append, hsign, hdigits]

namespace Report

/-- The number and the words around it stand on one line. -/
theorem lineFeeds_text (x : Report) :
    lineFeeds x.text = lineFeeds x.place + lineFeeds x.message := by
  have hopening : lineFeeds "[line " = 0 := rfl
  have herror : lineFeeds "] Error" = 0 := rfl
  have hcolon : lineFeeds ": " = 0 := rfl
  simp only [text, lineFeeds_append, lineFeeds_decimalText, hopening, herror, hcolon]
  omega

end Report

theorem Flaw.lineFeeds_message (f : Flaw) : lineFeeds f.message = 0 := by
  cases f <;> rfl

theorem Expectation.lineFeeds_message (x : Expectation) : lineFeeds x.message = 0 := by
  cases x <;> rfl

theorem LexicalError.lineFeeds_report (e : LexicalError) : lineFeeds e.report.text = 0 := by
  rw [Report.lineFeeds_text]
  exact (Nat.zero_add _).trans e.flaw.lineFeeds_message

theorem Token.lineFeeds_place {t : Token} (h : t.kind = .eof → t.lexeme = "") :
    lineFeeds t.place = lineFeeds t.lexeme := by
  have hat : lineFeeds " at '" = 0 := rfl
  have hquote : lineFeeds "'" = 0 := rfl
  unfold Token.place
  split
  · rename_i heof
    rw [h heof]
    rfl
  · rw [lineFeeds_append, lineFeeds_append, hat, hquote]
    omega

theorem SyntaxError.lineFeeds_report {e : SyntaxError}
    (h : e.token.kind = .eof → e.token.lexeme = "") :
    lineFeeds e.report.text = lineFeeds e.token.lexeme := by
  rw [Report.lineFeeds_text, ← Token.lineFeeds_place h]
  exact congrArg (_ + ·) e.expected.lineFeeds_message

/-! ## The tokens of a text -/

/-- Reading stops at a token of the stream or at its end. -/
theorem Segment.Cuts.token_mem {s : TokenStream} {a : Nat} {xs : List Segment} (h : Cuts s a xs) :
    ∀ e ∈ xs.filterMap error?, e.token ∈ s.body ++ [s.stop] := by
  induction h with
  | done => simp
  | next _ _ hx _ ih =>
      cases hx with
      | statement => exact ih
      | error _ _ htoken =>
          intro e he
          rcases List.mem_cons.mp he with rfl | he
          · exact List.mem_of_getElem? htoken
          · exact ih e he

namespace Scan
open Piece

theorem token_mem_of_error {source : String} {e : SyntaxError}
    (he : e ∈ (ofText source).program.errors) : e.token ∈ (ofText source).tokens := by
  rw [program_ofText] at he
  rw [tokens_ofText]
  exact (Segment.cuts_all _ (Nat.zero_le _)).token_mem e he

theorem lexeme_of_eof {source : String} {t : Token} (ht : t ∈ (ofText source).tokens)
    (heof : t.kind = .eof) : t.lexeme = "" := by
  rw [tokens_ofText] at ht
  rcases List.mem_append.mp ht with ht | ht
  · exact absurd heof (kind_ne_eof_of_mem ht)
  · rw [List.mem_singleton.mp ht]
    rfl

/-- Only the lexeme of a string reaches over a line end. -/
theorem lineFeeds_lexeme {source : String} {t : Token} (ht : t ∈ (ofText source).tokens)
    (hkind : t.kind ≠ .string) : lineFeeds t.lexeme = 0 := by
  rw [tokens_ofText] at ht
  rcases List.mem_append.mp ht with ht | ht
  · obtain ⟨_, p, _, _, _, hp, hspells, _⟩ := exists_spelled_of_mem ht
    rw [lineFeeds, hspells.1, String.toList_ofList]
    exact hspells.newlines_eq_zero hp hkind
  · rw [List.mem_singleton.mp ht]
    rfl

/-- No statement of the text stops at a string that reaches over a line end. -/
def StopsWithinLines (s : Scan) : Prop :=
  ∀ e ∈ s.program.errors, e.token.kind = .string → '\n' ∉ e.token.lexeme.toList

/-- The line feeds in the lexemes at which statements stop. -/
def brokenBy (s : Scan) : Nat := (s.program.errors.map fun e => lineFeeds e.token.lexeme).sum

theorem brokenBy_eq_zero_iff (source : String) :
    (ofText source).brokenBy = 0 ↔ (ofText source).StopsWithinLines := by
  rw [brokenBy, List.sum_eq_zero_iff_forall_eq_nat, List.forall_mem_map]
  refine forall₂_congr fun e he => ?_
  rw [← lineFeeds_eq_zero_iff]
  refine ⟨fun h _ => h, fun h => ?_⟩
  by_cases hkind : e.token.kind = .string
  · exact h hkind
  · exact lineFeeds_lexeme (token_mem_of_error he) hkind

theorem lineFeeds_reports (source : String) :
    (((ofText source).reports.map Report.text).map lineFeeds).sum = (ofText source).brokenBy := by
  have hlexical :
      ((((ofText source).errors.map LexicalError.report).map Report.text).map lineFeeds).sum =
        0 := by
    rw [List.sum_eq_zero_iff_forall_eq_nat, List.forall_mem_map, List.forall_mem_map,
      List.forall_mem_map]
    exact fun e _ => e.lineFeeds_report
  have hsyntax :
      (((ofText source).program.errors.map SyntaxError.report).map Report.text).map lineFeeds =
        (ofText source).program.errors.map fun e => lineFeeds e.token.lexeme := by
    rw [List.map_map, List.map_map]
    apply List.map_congr_left
    intro e he
    have hlexeme := lexeme_of_eof (token_mem_of_error he)
    rw [Function.comp_apply, Function.comp_apply, SyntaxError.lineFeeds_report hlexeme]
  rw [reports, List.map_append, List.map_append, List.sum_append, hlexical, hsyntax,
    Nat.zero_add, brokenBy]

end Scan

/-! ## Texts on lines of their own -/

namespace Text.Newline

/-- Any other character than a line feed joins the line behind it. -/
theorem lines_cons {c : Char} (hc : c ≠ '\n') {cs l : List Char} {ls : List (List Char)}
    (h : lines cs = l :: ls) : lines (c :: cs) = (c :: l) :: ls := by
  rw [lines, h]
  exact hc

theorem lines_append_newline {cs : List Char} (h : '\n' ∉ cs) (rest : List Char) :
    lines (cs ++ '\n' :: rest) = cs :: lines rest := by
  induction cs with
  | nil => rfl
  | cons c cs ih =>
      rw [List.mem_cons, not_or] at h
      exact lines_cons (fun hc => h.1 hc.symm) (ih h.2)

theorem length_lines_append_newline (cs rest : List Char) :
    (lines (cs ++ '\n' :: rest)).length = cs.count '\n' + 1 + (lines rest).length := by
  induction cs with
  | nil =>
      rw [List.nil_append, lines, List.length_cons, List.count_nil]
      omega
  | cons c cs ih =>
      by_cases hc : c = '\n'
      · subst hc
        rw [List.cons_append, lines, List.length_cons, ih, List.count_cons_self]
        omega
      · obtain ⟨l, ls, hlines⟩ : ∃ l ls, lines (cs ++ '\n' :: rest) = l :: ls :=
          List.exists_cons_of_length_pos (by omega)
        rw [List.cons_append, lines_cons hc hlines, List.count_cons_of_ne hc, ← ih, hlines]
        rfl

end Text.Newline

namespace Cli
open Text.Newline

theorem toList_onLines_cons (m : String) (ms : List String) :
    (onLines (m :: ms)).toList = m.toList ++ '\n' :: (onLines ms).toList := by
  rw [onLines, List.map_cons, String.join_cons, String.toList_append, String.toList_append,
    List.append_assoc]
  rfl

theorem lines_onLines {ms : List String} (h : ∀ m ∈ ms, '\n' ∉ m.toList) :
    lines (onLines ms).toList = ms.map String.toList := by
  induction ms with
  | nil => rfl
  | cons m ms ih =>
      obtain ⟨hm, hms⟩ := List.forall_mem_cons.mp h
      rw [toList_onLines_cons, lines_append_newline hm, ih hms, List.map_cons]

theorem length_lines_onLines (ms : List String) :
    (lines (onLines ms).toList).length = ms.length + (ms.map lineFeeds).sum := by
  induction ms with
  | nil => rfl
  | cons m ms ih =>
      rw [toList_onLines_cons, length_lines_append_newline, ih, List.length_cons, List.map_cons,
        List.sum_cons, lineFeeds]
      omega

theorem sum_lineFeeds_eq_zero_iff (ms : List String) :
    (ms.map lineFeeds).sum = 0 ↔ ∀ m ∈ ms, '\n' ∉ m.toList := by
  rw [List.sum_eq_zero_iff_forall_eq_nat, List.forall_mem_map]
  exact forall₂_congr fun m _ => lineFeeds_eq_zero_iff m

/-- Texts are the lines on which they stand if no line feed is among them. -/
theorem lines_onLines_eq_iff (ms : List String) :
    lines (onLines ms).toList = ms.map String.toList ↔ (ms.map lineFeeds).sum = 0 := by
  constructor
  · intro h
    have hlength := congrArg List.length h
    rw [length_lines_onLines, List.length_map] at hlength
    omega
  · intro h
    exact lines_onLines ((sum_lineFeeds_eq_zero_iff ms).mp h)

end Cli

/-! ## The reports of a run -/

theorem Stmt.exists_of_stopped {ss : List Stmt} {x : RuntimeError}
    (h : (performAll ss).2 = some x) : ∃ s ∈ ss, s.expr.eval = .error x := by
  obtain ⟨front, back, rfl, _, _, hback⟩ := performAll_split ss
  cases back with
  | nil =>
      rw [h] at hback
      cases hback
  | cons s back =>
      obtain ⟨y, hy, hstop⟩ := hback
      rw [h] at hstop
      cases hstop
      exact ⟨s, by simp, hy⟩

namespace RuntimeError

/-- The message of an operator that the grammar has names no lexeme. -/
theorem lineFeeds_message {x : RuntimeError} (h : x.token.kind ∈ x.rejection.operators) :
    lineFeeds x.message = 0 := by
  have hmem := message_mem h
  simp only [List.mem_cons, Prod.mk.injEq, List.not_mem_nil, or_false] at hmem
  rcases hmem with ⟨htext, _⟩ | ⟨htext, _⟩ | ⟨htext, _⟩ <;> rw [htext] <;> rfl

end RuntimeError

namespace Account

/-- A report of a run is on its text, or there is none on its text and it is on an
operator of it. -/
theorem mem_reports {source : String} {x : Report} (h : x ∈ (ofText source).reports) :
    x ∈ (Scan.ofText source).reports ∨
      (Scan.ofText source).reports = [] ∧ ∃ y : RuntimeError, x = y.report ∧
        y.token ∈ Scan.words source ∧ y.token.kind ∈ y.rejection.operators := by
  rw [ofText] at h
  cases hreports : (Scan.ofText source).reports with
  | cons z zs =>
      rw [hreports] at h
      exact .inl h
  | nil =>
      rw [hreports, of] at h
      obtain ⟨y, hy, rfl⟩ := List.mem_map.mp h
      obtain ⟨s, hs, heval⟩ := Stmt.exists_of_stopped (Option.mem_toList.mp hy)
      exact .inr ⟨rfl, y, rfl, (Scan.built_of_mem hs).eval_error heval⟩

theorem lineFeeds_reports (source : String) :
    (((ofText source).reports.map Report.text).map lineFeeds).sum =
      (Scan.ofText source).brokenBy := by
  rw [← Scan.lineFeeds_reports]
  cases hreports : (Scan.ofText source).reports with
  | cons x xs => rw [ofText, hreports, of]
  | nil =>
      rw [List.map_nil, List.map_nil, List.sum_nil, List.sum_eq_zero_iff_forall_eq_nat,
        List.forall_mem_map, List.forall_mem_map]
      intro x hx
      rcases mem_reports hx with hmem | ⟨_, y, rfl, _, hkind⟩
      · rw [hreports] at hmem
        cases hmem
      · rw [Report.lineFeeds_text]
        exact (Nat.zero_add _).trans (RuntimeError.lineFeeds_message hkind)

end Account

/-- The form of a report on a text: the number of a line, a place that is empty, the end
or a token of the text, and a message without a line feed. -/
def Report.Formed (source m : String) : Prop :=
  ∃ (line : Nat) (place message : String),
    m = "[line " ++ decimalText line ++ "] Error" ++ place ++ ": " ++ message ∧
    1 ≤ line ∧ '\n' ∉ message.toList ∧
    (place = "" ∨ place = " at end" ∨
      ∃ t ∈ (Scan.ofText source).tokens, t.kind ≠ .eof ∧ place = " at '" ++ t.lexeme ++ "'")

theorem LexicalError.formed {source : String} {e : LexicalError}
    (he : e ∈ (Scan.ofText source).errors) : Report.Formed source e.report.text := by
  refine ⟨e.line, "", e.flaw.message, rfl, ?_, ?_, .inl rfl⟩
  · obtain ⟨k, hk⟩ := List.getElem?_of_mem he
    obtain ⟨_, _, _, _, ⟨_, _, _, rfl⟩ | ⟨_, _, rfl⟩⟩ := Scan.error_line hk
    · exact Nat.le_add_right 1 _
    · exact Nat.le_add_right 1 _
  · exact (lineFeeds_eq_zero_iff _).mp e.flaw.lineFeeds_message

theorem SyntaxError.formed {source : String} {e : SyntaxError}
    (he : e ∈ (Scan.ofText source).program.errors) : Report.Formed source e.report.text := by
  have hmem := Scan.token_mem_of_error he
  refine ⟨e.token.line, e.token.place, e.expected.message, rfl,
    Scan.one_le_line _ hmem, ?_, .inr ?_⟩
  · exact (lineFeeds_eq_zero_iff _).mp e.expected.lineFeeds_message
  · unfold Token.place
    split
    · exact .inl rfl
    · rename_i hkind
      exact .inr ⟨e.token, hmem, hkind, rfl⟩

theorem Account.formed {source : String} {x : Report} (hx : x ∈ (ofText source).reports) :
    Report.Formed source x.text := by
  rcases mem_reports hx with hmem | ⟨_, y, rfl, hword, hkind⟩
  · rcases List.mem_append.mp hmem with hmem | hmem
    · obtain ⟨e, he, rfl⟩ := List.mem_map.mp hmem
      exact LexicalError.formed he
    · obtain ⟨e, he, rfl⟩ := List.mem_map.mp hmem
      exact SyntaxError.formed he
  · have htoken : y.token ∈ (Scan.ofText source).tokens := by
      rw [Scan.tokens_ofText]
      exact List.mem_append_left _ hword
    refine ⟨y.token.line, "", y.message, rfl, Scan.one_le_line _ htoken, ?_, .inl rfl⟩
    exact (lineFeeds_eq_zero_iff _).mp (RuntimeError.lineFeeds_message hkind)

namespace Reporter
open Cli

/-- The error stream of a run. -/
def errorStream (source : String) : String :=
  Chunk.stderr (chunksOf .warning (fresh.run source).events)

/-- Every report of a run has the same form. The error stream has a line for each of
them, and one more for each line feed in a string at which reading stopped. So the
reports are its lines exactly if reading stops at no string over several lines. -/
theorem reports_are_lines_iff (source : String) :
    (∀ m ∈ (fresh.run source).reporter.messages, Report.Formed source m) ∧
      (Text.Newline.lines (errorStream source).toList).length =
        (fresh.run source).reporter.messages.length + (Scan.ofText source).brokenBy ∧
      ((∀ m ∈ (fresh.run source).reporter.messages, '\n' ∉ m.toList) ↔
        (Scan.ofText source).StopsWithinLines) ∧
      (Text.Newline.lines (errorStream source).toList =
          (fresh.run source).reporter.messages.map String.toList ↔
        (Scan.ofText source).StopsWithinLines) := by
  have hstream : errorStream source = onLines (fresh.run source).reporter.messages := by
    rw [errorStream, stderr_quiet rfl, ← reports_run]
    rfl
  have hsum : ((fresh.run source).reporter.messages.map lineFeeds).sum =
      (Scan.ofText source).brokenBy := by
    rw [(run_fresh source).2.2, Account.lineFeeds_reports]
  refine ⟨?_, ?_, ?_, ?_⟩
  · rw [(run_fresh source).2.2, List.forall_mem_map]
    exact fun x hx => Account.formed hx
  · rw [hstream, length_lines_onLines, hsum]
  · rw [← Scan.brokenBy_eq_zero_iff, ← hsum, sum_lineFeeds_eq_zero_iff]
  · rw [hstream, lines_onLines_eq_iff, hsum, Scan.brokenBy_eq_zero_iff]

/-- A string over two lines that follows an expression is reported on two lines, of
which the second has not the form of a report. -/
theorem report_over_two_lines :
    (fresh.run "nil \"a\nb\";").reporter.messages =
        ["[line 2] Error at '\"a\nb\"': Expect ';' after expression."] ∧
      ¬ (∀ m ∈ (fresh.run "nil \"a\nb\";").reporter.messages, '\n' ∉ m.toList) ∧
      (Text.Newline.lines (errorStream "nil \"a\nb\";").toList).map String.ofList =
        ["[line 2] Error at '\"a", "b\"': Expect ';' after expression."] := by
  refine ⟨by decide +kernel, by decide +kernel, by decide +kernel⟩

end Reporter

end Lox

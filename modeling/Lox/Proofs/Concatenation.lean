import Lox.Proofs.Relining
import Lox.Proofs.Separation

/-!
# One program behind another

A line break ends every piece but an open string, so two texts with a line break
between them are cut like each of them alone. If the first is a row of
statements, the second is then read as it is alone, further down. The run of
both is the run of the first and, unless that fails, the run of the second; but
errors in the second text keep the first from being executed too.
-/
namespace Lox

namespace Piece

/-- A piece with an end of its own stands in front of a line break as it stands
in front of the end of the text. -/
theorem Stands.append_newline {p : Piece} {rest : List Char} (h : Stands p rest)
    (hclosed : p.flaw? ≠ some .unterminatedString) (ds : List Char) :
    Stands p (rest ++ '\n' :: ds) := by
  have hgap : BreaksOff rest (rest ++ '\n' :: ds) :=
    breaksOff_append (by decide) rest ds
  cases p with
  | comment body =>
      refine ⟨h.1, .inr ?_⟩
      rcases h.2 with rfl | hhead
      · rfl
      · obtain ⟨more, rfl⟩ := List.head?_eq_some_iff.mp hhead
        rfl
  | openString body => exact absurd rfl hclosed
  | _ => exact h.of_breaksOff hgap rfl

theorem Decomposes.append_newline {cs ds : List Char} {ps qs : List Piece} (h : Decomposes cs ps)
    (hclosed : ∀ p ∈ ps, p.flaw? ≠ some .unterminatedString) (hq : Decomposes ds qs) :
    Decomposes (cs ++ '\n' :: ds) (ps ++ newline :: qs) := by
  induction h with
  | nil => exact .cons (p := newline) trivial hq
  | @cons p rest ps hp _ ih =>
      rw [List.append_assoc, List.cons_append]
      apply Decomposes.cons
      · exact hp.append_newline (hclosed p (by simp)) ds
      · apply ih
        intro q hmem
        exact hclosed q (by simp [hmem])

theorem pieces_append_newline {cs : List Char}
    (h : ∀ p ∈ pieces cs, p.flaw? ≠ some .unterminatedString) (ds : List Char) :
    pieces (cs ++ '\n' :: ds) = pieces cs ++ newline :: pieces ds := by
  symm
  apply Decomposes.eq_pieces
  exact (pieces_decomposes cs).append_newline h (pieces_decomposes ds)

theorem token?_add (p : Piece) (line d : Nat) :
    p.token? (line + d) = (p.token? line).map (Token.reline (· + d)) := by
  cases p <;> rfl

theorem error?_add (p : Piece) (line d : Nat) :
    p.error? (line + d) = (p.error? line).map (LexicalError.reline (· + d)) := by
  cases p <;> rfl

end Piece

namespace Scan
open Piece

/-- A text in which every string has an end. -/
def Closed (source : String) : Prop :=
  ∀ e ∈ (ofText source).errors, e.flaw ≠ .unterminatedString

theorem closed_of_clean {source : String} (h : (ofText source).errors = []) : Closed source := by
  intro e he
  rw [h] at he
  cases he

theorem Closed.flaw?_ne {source : String} (h : Closed source) :
    ∀ p ∈ pieces source.toList, p.flaw? ≠ some .unterminatedString := by
  intro p hp hflaw
  have hmem : Flaw.unterminatedString ∈ (pieces source.toList).filterMap flaw? :=
    List.mem_filterMap.mpr ⟨p, hp, hflaw⟩
  rw [← errorsFrom_flaws 1] at hmem
  obtain ⟨e, he, hsame⟩ := List.mem_map.mp hmem
  exact h e he hsame

theorem toList_concat (s₁ s₂ : String) :
    (s₁ ++ "\n" ++ s₂).toList = s₁.toList ++ '\n' :: s₂.toList := by
  simp

theorem lines_concat (s₁ s₂ : String) : lines (s₁ ++ "\n" ++ s₂) = lines s₂ + lines s₁ := by
  unfold lines
  rw [toList_concat, List.count_append, List.count_cons_self]
  omega

section Gather
variable {α : Type} {f : Nat → Piece → Option α} {g : Nat → α → α}

theorem gather_add (hf : ∀ p line d, f (line + d) p = (f line p).map (g d)) (line d : Nat)
    (ps : List Piece) : gather f (line + d) ps = (gather f line ps).map (g d) := by
  induction ps generalizing line with
  | nil => rfl
  | cons p ps ih =>
      rw [gather, gather, Nat.add_right_comm, ih, hf, List.map_append, Option.toList_map]

/-- What is found in the second text follows what is found in the first, further
down. -/
theorem gather_concat (hf : ∀ p line d, f (line + d) p = (f line p).map (g d))
    (hnewline : ∀ line, f line newline = none) {s₁ : String} (h : Closed s₁) (s₂ : String) :
    gather f 1 (pieces (s₁ ++ "\n" ++ s₂).toList) =
      gather f 1 (pieces s₁.toList) ++
        (gather f 1 (pieces s₂.toList)).map (g (lines s₁)) := by
  have hline : 1 + s₁.toList.count '\n' + newline.newlines = 1 + lines s₁ := by
    unfold lines
    exact Nat.add_comm _ 1
  rw [toList_concat, pieces_append_newline h.flaw?_ne, gather_append, breaks_pieces, gather,
    hnewline, hline, gather_add hf]
  rfl

end Gather

/-- The words of the second text follow those of the first, further down. -/
theorem words_concat {s₁ : String} (h : Closed s₁) (s₂ : String) :
    words (s₁ ++ "\n" ++ s₂) =
      words s₁ ++ (words s₂).map (Token.reline (· + lines s₁)) := by
  unfold words
  rw [wordsFrom_eq_gather, wordsFrom_eq_gather, wordsFrom_eq_gather]
  exact gather_concat (g := fun d => Token.reline (· + d)) token?_add (fun _ => rfl) h s₂

theorem errors_concat {s₁ : String} (h : Closed s₁) (s₂ : String) :
    (ofText (s₁ ++ "\n" ++ s₂)).errors = (ofText s₁).errors ++
      (ofText s₂).errors.map (LexicalError.reline (· + lines s₁)) := by
  change errorsFrom 1 (pieces (s₁ ++ "\n" ++ s₂).toList) =
    errorsFrom 1 (pieces s₁.toList) ++ (errorsFrom 1 (pieces s₂.toList)).map _
  rw [errorsFrom_eq_gather, errorsFrom_eq_gather, errorsFrom_eq_gather]
  exact gather_concat (g := fun d => LexicalError.reline (· + d)) error?_add (fun _ => rfl) h s₂

end Scan

namespace Program
open Segment

/-- Statements in front of other tokens leave these to be read by themselves. -/
theorem all_append_of_derivesAll (stop : Token) {w : List Token} {ss : List Stmt}
    (h : Stmt.DerivesAll w ss) (v : List Token) :
    ofSegments (all stop (w ++ v)) =
      ⟨ss ++ (ofSegments (all stop v)).statements, (ofSegments (all stop v)).errors⟩ := by
  induction h with
  | nil => rfl
  | @cons w u s ss hw _ ih =>
      rw [List.append_assoc, all_of_ok (hw.read_eq_ok _), ofSegments_statement, ih]
      rfl

end Program

namespace Scan

theorem program_concat {s₁ : String} (hscan : (ofText s₁).errors = [])
    (hread : (ofText s₁).program.errors = []) (s₂ : String) :
    (ofText (s₁ ++ "\n" ++ s₂)).program =
      ⟨(ofText s₁).program.statements ++
          ((ofText s₂).program.reline (· + lines s₁)).statements,
        ((ofText s₂).program.reline (· + lines s₁)).errors⟩ := by
  have hfirst : Stmt.DerivesAll (words s₁) (ofText s₁).program.statements := by
    apply (Program.ofStream_eq_iff ⟨words s₁, Token.endOf (lines s₁)⟩ _).mp
    rw [← program_ofText, ← hread]
  have hstop : Token.endOf (lines (s₁ ++ "\n" ++ s₂)) =
      (Token.endOf (lines s₂)).reline (· + lines s₁) := by
    rw [lines_concat]
    rfl
  rw [program_ofText, program_ofText s₂, words_concat (closed_of_clean hscan), hstop,
    ← Program.ofStream_reline]
  exact Program.all_append_of_derivesAll _ hfirst _

end Scan

namespace Report

/-- The same report further down. -/
def raise (d : Nat) (x : Report) : Report := { x with line := x.line + d }

theorem follows_raise (d : Nat) : Follows (· + d) (raise d) := by
  intro line place message
  unfold raise
  simp

end Report

namespace Account

theorem of_nil_append (ss ts : List Stmt) : of [] (ss ++ ts) =
    if (Stmt.performAll ss).2 = none then
      ⟨(of [] ts).outcome, (of [] ss).output ++ (of [] ts).output, (of [] ts).reports⟩
    else of [] ss := by
  rw [of, of, of, Stmt.performAll_append]
  split <;> rfl

theorem outcome_eq_runtimeError_iff (ss : List Stmt) :
    (of [] ss).outcome = .runtimeError ↔ (Stmt.performAll ss).2 ≠ none := by
  rw [of]
  cases (Stmt.performAll ss).2 <;> simp

theorem outcome_ne_syntaxError (ss : List Stmt) : (of [] ss).outcome ≠ .syntaxError := by
  rw [of]
  cases (Stmt.performAll ss).2 <;> simp

/-- The account of two texts, the first of them without errors, one behind the
other. -/
theorem ofText_concat {s₁ : String} (hscan : (Scan.ofText s₁).errors = [])
    (hread : (Scan.ofText s₁).program.errors = []) (s₂ : String) :
    ofText (s₁ ++ "\n" ++ s₂) =
      if (ofText s₂).outcome = .syntaxError then
        ⟨.syntaxError, [], (ofText s₂).reports.map (Report.raise (Scan.lines s₁))⟩
      else if (ofText s₁).outcome = .runtimeError then ofText s₁
      else
        ⟨(ofText s₂).outcome, (ofText s₁).output ++ (ofText s₂).output,
          (ofText s₂).reports.map (Report.raise (Scan.lines s₁))⟩ := by
  have hfollows := Report.follows_raise (Scan.lines s₁)
  have hfirst : (Scan.ofText s₁).reports = [] :=
    (Scan.reports_eq_nil_iff _).mpr ⟨hscan, hread⟩
  have hreports : (Scan.ofText (s₁ ++ "\n" ++ s₂)).reports =
      (Scan.ofText s₂).reports.map (Report.raise (Scan.lines s₁)) := by
    rw [Scan.reports, Scan.errors_concat (Scan.closed_of_clean hscan), hscan, List.nil_append,
      Scan.program_concat hscan hread]
    exact Scan.reports_reline hfollows _ _
  rw [ofText, hreports, Scan.program_concat hscan hread, ofText, ofText, hfirst]
  -- Errors in the second text are known before any statement is executed.
  cases (Scan.ofText s₂).reports with
  | cons x xs => rfl
  | nil =>
      have hsecond := of_reline hfollows [] (Scan.ofText s₂).program.statements
      rw [List.map_nil] at hsecond
      rw [if_neg (outcome_ne_syntaxError _), List.map_nil, of_nil_append, Program.reline, hsecond]
      by_cases hstop : (Stmt.performAll (Scan.ofText s₁).program.statements).2 = none
      · have hok : ¬ (of [] (Scan.ofText s₁).program.statements).outcome = .runtimeError := by
          rw [outcome_eq_runtimeError_iff]
          exact not_not.mpr hstop
        rw [if_pos hstop, if_neg hok]
      · rw [if_neg hstop, if_pos ((outcome_eq_runtimeError_iff _).mpr hstop)]

end Account

namespace Reporter

/-- The same messages with their lines raised by `d`. -/
def Raised (d : Nat) (ms ms' : List String) : Prop :=
  ∃ xs : List Report, ms = xs.map Report.text ∧ ms' = xs.map fun x => (x.raise d).text

/-- Two texts, the first of them without errors, run like one after the other. -/
theorem run_concat (s₁ s₂ : String) (hscan : (Scan.ofText s₁).errors = [])
    (hread : (Scan.ofText s₁).program.errors = []) :
    if (fresh.run s₂).value = .syntaxError then
      (fresh.run (s₁ ++ "\n" ++ s₂)).value = .syntaxError ∧
        (fresh.run (s₁ ++ "\n" ++ s₂)).output = [] ∧
        Raised (1 + s₁.toList.count '\n') (fresh.run s₂).reporter.messages
          (fresh.run (s₁ ++ "\n" ++ s₂)).reporter.messages
    else if (fresh.run s₁).value = .runtimeError then
      (fresh.run (s₁ ++ "\n" ++ s₂)).value = (fresh.run s₁).value ∧
        (fresh.run (s₁ ++ "\n" ++ s₂)).output = (fresh.run s₁).output ∧
        (fresh.run (s₁ ++ "\n" ++ s₂)).reporter.messages = (fresh.run s₁).reporter.messages
    else
      (fresh.run (s₁ ++ "\n" ++ s₂)).value = (fresh.run s₂).value ∧
        (fresh.run (s₁ ++ "\n" ++ s₂)).output = (fresh.run s₁).output ++ (fresh.run s₂).output ∧
        Raised (1 + s₁.toList.count '\n') (fresh.run s₂).reporter.messages
          (fresh.run (s₁ ++ "\n" ++ s₂)).reporter.messages := by
  obtain ⟨hv₁, ho₁, hm₁⟩ := run_fresh s₁
  obtain ⟨hv₂, ho₂, hm₂⟩ := run_fresh s₂
  obtain ⟨hv, ho, hm⟩ := run_fresh (s₁ ++ "\n" ++ s₂)
  rw [hv₁, ho₁, hm₁, hv₂, ho₂, hm₂, hv, ho, hm, Account.ofText_concat hscan hread]
  split
  · exact ⟨rfl, rfl, _, rfl, by rw [List.map_map]; rfl⟩
  · split
    · exact ⟨rfl, rfl, rfl⟩
    · exact ⟨rfl, rfl, _, rfl, by rw [List.map_map]; rfl⟩

/-- Two statements that both succeed. -/
def upperPart : String := "print \"a\"; // first\nnil;"

/-- A statement that succeeds, and one that fails. -/
def lowerPart : String := "print true;\n-nil;"

/-- The second text fails on its second line, which is the fourth of both. -/
theorem run_concat_fails_below :
    (Scan.ofText upperPart).errors = [] ∧
      (Scan.ofText upperPart).program.errors = [] ∧
      (fresh.run (upperPart ++ "\n" ++ lowerPart)).value = .runtimeError ∧
      (fresh.run (upperPart ++ "\n" ++ lowerPart)).output = ["a", "true"] ∧
      Raised 2 ["[line 2] Error: Operand must be a number."]
        (fresh.run (upperPart ++ "\n" ++ lowerPart)).reporter.messages := by
  have hscan : (Scan.ofText upperPart).errors = [] := by decide +kernel
  have hread : (Scan.ofText upperPart).program.errors = [] := by decide +kernel
  have hfirst : (fresh.run upperPart).value = .ok := by decide +kernel
  have hsecond : (fresh.run lowerPart).value = .runtimeError := by decide +kernel
  have hlines : (fresh.run upperPart).output ++ (fresh.run lowerPart).output =
      ["a", "true"] := by decide +kernel
  have hmessages : (fresh.run lowerPart).reporter.messages =
      ["[line 2] Error: Operand must be a number."] := by decide +kernel
  have hdown : 1 + upperPart.toList.count '\n' = 2 := by decide +kernel
  have h := run_concat upperPart lowerPart hscan hread
  rw [hfirst, hsecond, hlines, hmessages, hdown, if_neg (by decide), if_neg (by decide)] at h
  exact ⟨hscan, hread, h⟩

/-- Two texts, of which the first leaves no string open, are scanned like each of
them alone. -/
theorem scan_concat (s₁ s₂ : String)
    (hclosed : ∀ e ∈ (Scan.ofText s₁).errors, e.flaw ≠ .unterminatedString) :
    (Scan.ofText (s₁ ++ "\n" ++ s₂)).tokens = (Scan.ofText s₁).tokens.dropLast ++
        (Scan.ofText s₂).tokens.map (Token.reline (· + (1 + s₁.toList.count '\n'))) ∧
      (Scan.ofText (s₁ ++ "\n" ++ s₂)).errors = (Scan.ofText s₁).errors ++
        (Scan.ofText s₂).errors.map (LexicalError.reline (· + (1 + s₁.toList.count '\n'))) ∧
      ∃ ms, Raised (1 + s₁.toList.count '\n') (fresh.scan s₂).reporter.messages ms ∧
        (fresh.scan (s₁ ++ "\n" ++ s₂)).reporter.messages =
          (fresh.scan s₁).reporter.messages ++ ms := by
  have herrors := Scan.errors_concat hclosed s₂
  refine ⟨?_, herrors, ?_⟩
  · rw [Scan.tokens_ofText, Scan.words_concat hclosed, Scan.lines_concat, Scan.tokens_ofText s₁,
      List.dropLast_concat, Scan.tokens_ofText s₂, List.map_append, List.append_assoc]
    rfl
  · refine ⟨((Scan.ofText s₂).errors.map (LexicalError.reline (· + Scan.lines s₁))).map
      fun e => e.report.text, ?_, ?_⟩
    · refine ⟨(Scan.ofText s₂).errors.map LexicalError.report, ?_, ?_⟩
      · rw [messages_scan, List.map_map]
        rfl
      · rw [List.map_map, List.map_map]
        apply List.map_congr_left
        intro e _
        have hraised := Report.follows_raise (Scan.lines s₁) e.line "" e.flaw.message
        exact congrArg Report.text hraised.symm
    · rw [messages_scan, messages_scan, herrors, List.map_append]
      rfl

/-- A stray character, a number with a point behind it, and half an operator. -/
def halfOperator : String := "@\n1. !"

/-- The other half, a string over two lines, and one that never ends. -/
def otherHalf : String := "= \"a\nb\" \"c"

/-- A stray character and half an operator in front of the line break, a string that
goes over lines and one that never ends behind it. -/
theorem scan_concat_half_operator :
    (∀ e ∈ (Scan.ofText halfOperator).errors, e.flaw ≠ .unterminatedString) ∧
      ((Scan.ofText (halfOperator ++ "\n" ++ otherHalf)).tokens.map fun t =>
          (t.kind, t.lexeme, t.line)) =
        [(.number, "1", 2), (.dot, ".", 2), (.bang, "!", 2), (.equal, "=", 3),
          (.string, "\"a\nb\"", 4), (.eof, "", 4)] ∧
      (Scan.ofText (halfOperator ++ "\n" ++ otherHalf)).errors =
        [⟨.unexpectedCharacter, 1⟩, ⟨.unterminatedString, 4⟩] := by
  have hclosed : ∀ e ∈ (Scan.ofText halfOperator).errors, e.flaw ≠ .unterminatedString := by
    decide +kernel
  obtain ⟨htokens, herrors, _⟩ := scan_concat halfOperator otherHalf hclosed
  rw [htokens, herrors]
  exact ⟨hclosed, by decide +kernel, by decide +kernel⟩

end Reporter

end Lox

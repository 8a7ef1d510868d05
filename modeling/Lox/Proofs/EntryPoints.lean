import Lox.Proofs.Concatenation

/-!
# An expression by itself and in a program

An expression can be evaluated by itself, or by a program that prints it. The
program has the word `print` in front of the expression, and a semicolon on a
line of its own behind it, where no comment can swallow it. Neither of them moves
the words in between or their lines, so that both ways print the same line or
report the same error.
-/
namespace Lox

namespace Piece

theorem print_stands (cs : List Char) : Stands (word "print".toList) (' ' :: cs) := by
  have hall : "print".toList.all beginsWord = true := by decide
  have hletters (c : Char) (hc : c ∈ "print".toList) : Letter c :=
    (beginsWord_iff c).mp (List.all_eq_true.mp hall c hc)
  refine ⟨⟨'p', "rint".toList, rfl, hletters _ (by decide), ?_⟩, ?_⟩
  · intro c hc
    exact .inl (hletters c (List.mem_cons_of_mem 'p' hc))
  · intro c hc
    obtain rfl : ' ' = c := by simpa using hc
    rw [← continuesWord_iff]
    decide

/-- What stands behind `print` and a space is cut as it is by itself. -/
theorem pieces_print (cs : List Char) :
    pieces ("print ".toList ++ cs) = word "print".toList :: blank ' ' :: pieces cs := by
  symm
  apply Decomposes.eq_pieces
  have hblank : Stands (blank ' ') cs := .inl rfl
  exact .cons (print_stands cs) (.cons hblank (pieces_decomposes cs))

end Piece

namespace Scan
open Piece

theorem words_print (s : String) :
    words ("print " ++ s) = ⟨.printWord, "print", .nil, 1⟩ :: words s := by
  unfold words
  rw [String.toList_append, pieces_print]
  rfl

theorem errors_print (s : String) : (ofText ("print " ++ s)).errors = (ofText s).errors := by
  change errorsFrom 1 (pieces ("print " ++ s).toList) = errorsFrom 1 (pieces s.toList)
  rw [String.toList_append, pieces_print]
  rfl

theorem words_semicolon : words ";" = [⟨.semicolon, ";", .nil, 1⟩] := by
  decide +kernel

theorem errors_semicolon : (ofText ";").errors = [] := by
  decide +kernel

/-- A text that is one expression makes a program of one statement. -/
theorem program_print {s : String} {e : Expr} (hscan : (ofText s).errors = [])
    (hread : Expr.Derives .expression (words s) e) :
    (ofText ("print " ++ s ++ "\n" ++ ";")).program = ⟨[.print e], []⟩ := by
  rw [← errors_print] at hscan
  rw [program_ofText, Program.ofStream_eq_iff, words_concat (closed_of_clean hscan), words_print,
    words_semicolon]
  have hprint : Stmt.Derives (⟨.printWord, "print", .nil, 1⟩ :: (words s ++
      [Token.reline (· + lines ("print " ++ s)) ⟨.semicolon, ";", .nil, 1⟩])) (.print e) :=
    .print rfl hread rfl
  have hall := Stmt.DerivesAll.cons hprint .nil
  rwa [List.append_nil] at hall

theorem reports_print {s : String} {e : Expr} (hscan : (ofText s).errors = [])
    (hread : Expr.Derives .expression (words s) e) :
    (ofText ("print " ++ s ++ "\n" ++ ";")).reports = [] := by
  rw [reports_eq_nil_iff, program_print hscan hread]
  rw [← errors_print] at hscan
  rw [errors_concat (closed_of_clean hscan), hscan, errors_semicolon]
  exact ⟨rfl, rfl⟩

end Scan

namespace Reporter

/-- To print an expression is to evaluate it and show its value. -/
theorem interpret_print (r : Reporter) (e : Expr) :
    (r.interpret [.print e]).reporter = (r.interpretExpression e).reporter ∧
      (r.interpret [.print e]).effects = (r.interpretExpression e).effects := by
  rw [interpret_reporter, interpret_effects, interpretExpression]
  cases h : e.eval with
  | ok v =>
      have hall : Stmt.performAll [.print e] = ([v.text], none) :=
        Stmt.performAll_of_ok (s := .print e) h []
      rw [hall]
      exact ⟨rfl, rfl⟩
  | error x =>
      have hall : Stmt.performAll [.print e] = ([], some x) :=
        Stmt.performAll_of_error (s := .print e) h []
      rw [hall]
      exact ⟨rfl, rfl⟩

theorem outcome_interpretExpression (e : Expr) :
    (fresh.interpretExpression e).reporter.outcome =
      if (fresh.interpretExpression e).reporter.messages = [] then .ok else .runtimeError := by
  unfold interpretExpression
  cases e.eval with
  | ok v => rfl
  | error x => rfl

/-- A program that prints an expression does what the expression does by itself. -/
theorem run_print_expression (s : String) (e : Expr) (hscan : (Scan.ofText s).errors = [])
    (hread : (fresh.parseExpression (Cursor.start (Scan.ofText s).stream)).value.1 = some e) :
    (fresh.run ("print " ++ s ++ "\n" ++ ";")).output = (fresh.interpretExpression e).output ∧
      (fresh.run ("print " ++ s ++ "\n" ++ ";")).reporter.messages =
        (fresh.interpretExpression e).reporter.messages ∧
      (fresh.run ("print " ++ s ++ "\n" ++ ";")).effects = (fresh.interpretExpression e).effects ∧
      (fresh.run ("print " ++ s ++ "\n" ++ ";")).value =
        if (fresh.interpretExpression e).reporter.messages = [] then .ok else .runtimeError := by
  rw [parseExpression_eq_some_iff, Scan.stream_ofText] at hread
  have hclean := Scan.reports_print hscan hread
  obtain ⟨hreporter, heffects⟩ := run_of_clean (r := fresh) rfl hclean
  obtain ⟨hreporter', heffects'⟩ := interpret_print fresh e
  rw [Scan.program_print hscan hread] at hreporter heffects
  rw [hreporter'] at hreporter
  rw [heffects'] at heffects
  refine ⟨?_, ?_, heffects, ?_⟩
  · rw [Step.output_eq, Step.output_eq, heffects]
  · rw [hreporter]
  · rw [run_value, hreporter, outcome_interpretExpression]

/-- A difference over two lines, each with a comment at its end. -/
def commentedDifference : String := "\"a\" // one\n - nil // two"

/-- The text ends in a comment, and the operator to blame is on its second line. -/
theorem run_print_expression_second_line :
    (fresh.run ("print " ++ commentedDifference ++ "\n" ++ ";")).reporter.messages =
        ["[line 2] Error: Operands must be numbers."] ∧
      (fresh.run ("print " ++ commentedDifference ++ "\n" ++ ";")).value = .runtimeError := by
  have hscan : (Scan.ofText commentedDifference).errors = [] := by decide +kernel
  have hread : (fresh.parseExpression (Cursor.start
      (Scan.ofText commentedDifference).stream)).value.1 =
        some (.binary (.literal (.string "a")) ⟨.minus, "-", .nil, 2⟩ (.literal .nil)) := by
    decide +kernel
  have hmessages : (fresh.interpretExpression (.binary (.literal (.string "a"))
      ⟨.minus, "-", .nil, 2⟩ (.literal .nil))).reporter.messages =
        ["[line 2] Error: Operands must be numbers."] := by
    decide +kernel
  obtain ⟨_, hsame, _, hvalue⟩ := run_print_expression _ _ hscan hread
  rw [hmessages] at hsame hvalue
  exact ⟨hsame, hvalue⟩

end Reporter

end Lox

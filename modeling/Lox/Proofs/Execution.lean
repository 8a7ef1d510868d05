import Lox.Proofs.Lines

/-!
# What a run does

A run reports what is wrong with its source text and, if nothing is and nothing
was before, executes the statements up to the first one that fails. A run is
therefore settled by two lists, the reports on the text and the statements read
from it; with a fresh reporter nothing else is seen of it.
-/
namespace Lox

namespace Event

/-- Lines and reports are for everybody to see, notes are not. -/
def visible : Event → Bool
  | output _ => true
  | report _ => true
  | note _ _ => false

end Event

def Report.shown (x : Report) : Event := .report x.text

namespace Step
variable {α : Type}

/-- What is seen of a step, in order. -/
def effects (s : Step α) : List Event := s.events.filter Event.visible

def output (s : Step α) : List String := s.events.filterMap Event.output?

theorem output_eq (s : Step α) : s.output = s.effects.filterMap Event.output? := by
  unfold output effects
  induction s.events with
  | nil => rfl
  | cons e es ih =>
      cases e with
      | output line => exact congrArg (line :: ·) ih
      | report text => exact ih
      | note topic text => exact ih

end Step

namespace Event

theorem visible_note (topic : Topic) (text : String) : [note topic text].filter visible = [] :=
  rfl

theorem visible_outputs (lines : List String) :
    (lines.map output).filter visible = lines.map output := by
  induction lines with
  | nil => rfl
  | cons line lines ih => rw [List.map_cons, List.filter_cons_of_pos rfl, ih]

theorem visible_reports (xs : List Report) :
    (xs.flatMap Report.events).filter visible = xs.map Report.shown := by
  induction xs with
  | nil => rfl
  | cons x xs ih =>
      rw [List.flatMap_cons, List.filter_append, ih]
      rfl

theorem output_outputs (lines : List String) : (lines.map output).filterMap output? = lines := by
  induction lines with
  | nil => rfl
  | cons line lines ih => exact congrArg (line :: ·) ih

theorem output_reports (xs : List Report) : (xs.map Report.shown).filterMap output? = [] := by
  induction xs with
  | nil => rfl
  | cons x xs ih => exact ih

end Event

namespace Stmt

def printed? : Stmt → Option Expr
  | print e => some e
  | expression _ => none

/-- A statement whose expression has a value. -/
def Succeeds (s : Stmt) : Prop := ∃ v, s.expr.eval = .ok v

theorem perform_of_ok {s : Stmt} {v : Value} (h : s.expr.eval = .ok v) :
    s.perform = .ok (s.printed?.toList.map fun _ => v.text) := by
  cases s <;> simp_all [expr, perform, printed?]

theorem perform_of_error {s : Stmt} {x : RuntimeError} (h : s.expr.eval = .error x) :
    s.perform = .error x := by
  cases s <;> simp_all [expr, perform]

theorem performAll_of_ok {s : Stmt} {v : Value} (h : s.expr.eval = .ok v) (ss : List Stmt) :
    performAll (s :: ss) =
      ((s.printed?.toList.map fun _ => v.text) ++ (performAll ss).1, (performAll ss).2) := by
  rw [performAll, perform_of_ok h]

theorem performAll_of_error {s : Stmt} {x : RuntimeError} (h : s.expr.eval = .error x)
    (ss : List Stmt) : performAll (s :: ss) = ([], some x) := by
  rw [performAll, perform_of_error h]

/-- Statements behind others are executed if none of these fails. -/
theorem performAll_append (ss ts : List Stmt) : performAll (ss ++ ts) =
    if (performAll ss).2 = none then
      ((performAll ss).1 ++ (performAll ts).1, (performAll ts).2)
    else performAll ss := by
  induction ss with
  | nil => simp [performAll]
  | cons s ss ih =>
      cases h : s.expr.eval with
      | error x =>
          rw [List.cons_append, performAll_of_error h, performAll_of_error h]
          rfl
      | ok v =>
          rw [List.cons_append, performAll_of_ok h, performAll_of_ok h, ih]
          split
          · rw [List.append_assoc]
          · rfl

/-- The lines printed are the texts of the values of `front`, and what stopped
the statements is the error of the first one behind it. -/
theorem performAll_split (ss : List Stmt) : ∃ front back, ss = front ++ back ∧
    (∀ s ∈ front, s.Succeeds) ∧
    List.Forall₂ (fun e line => e.eval.map Value.text = .ok line)
      (front.filterMap printed?) (performAll ss).1 ∧
    match back with
    | [] => (performAll ss).2 = none
    | s :: _ => ∃ x, s.expr.eval = .error x ∧ (performAll ss).2 = some x := by
  -- A statement that succeeds joins `front`, the first one that fails ends it.
  induction ss with
  | nil => exact ⟨[], [], rfl, by simp, .nil, rfl⟩
  | cons s ss ih =>
      cases h : s.expr.eval with
      | error x =>
          rw [performAll_of_error h]
          exact ⟨[], s :: ss, rfl, by simp, .nil, x, h, rfl⟩
      | ok v =>
          obtain ⟨front, back, rfl, hfront, hlines, hback⟩ := ih
          rw [performAll_of_ok h]
          refine ⟨s :: front, back, rfl, ?_, ?_, hback⟩
          · intro s' hs'
            rcases List.mem_cons.mp hs' with rfl | hs'
            · exact ⟨v, h⟩
            · exact hfront s' hs'
          · cases s with
            | expression e => exact hlines
            | print e =>
                have hv : e.eval = .ok v := h
                refine .cons ?_ hlines
                rw [hv]
                rfl

/-- Statements up to one that fails are as many as can succeed in a row. -/
theorem length_le_of_succeed {front back w : List Stmt} (hw : w <+: front ++ back)
    (hall : ∀ s ∈ w, s.Succeeds) (hback : ∀ s ∈ back.head?, ¬ s.Succeeds) :
    w.length ≤ front.length := by
  -- A longer row would hold the first statement of `back`, which fails.
  by_contra hlt
  obtain ⟨u, hu⟩ : front <+: w :=
    List.prefix_of_prefix_length_le (List.prefix_append front back) hw (by omega)
  subst hu
  cases u with
  | nil => simp at hlt
  | cons s u =>
      have hs : s ∈ back.head? := by
        obtain ⟨z, hz⟩ := (List.prefix_append_right_inj front).mp hw
        rw [← hz]
        rfl
      exact hback s hs (hall s (by simp))

end Stmt

namespace Scan

def program (s : Scan) : Program := Program.ofStream s.stream

theorem program_ofText (source : String) :
    (ofText source).program = Program.ofStream ⟨words source, Token.endOf (lines source)⟩ := by
  rw [program, stream_ofText]

/-- All that is reported about a text before anything of it is executed. -/
def reports (s : Scan) : List Report :=
  s.errors.map LexicalError.report ++ s.program.errors.map SyntaxError.report

theorem reports_eq_nil_iff (s : Scan) :
    s.reports = [] ↔ s.errors = [] ∧ s.program.errors = [] := by
  rw [reports, List.append_eq_nil_iff, List.map_eq_nil_iff, List.map_eq_nil_iff]

end Scan

namespace Reporter

theorem addSyntaxAll_append (r : Reporter) (xs ys : List Report) :
    r.addSyntaxAll (xs ++ ys) = (r.addSyntaxAll xs).addSyntaxAll ys := by
  unfold addSyntaxAll
  rw [List.foldl_append]

theorem interpret_reporter (r : Reporter) (ss : List Stmt) :
    (r.interpret ss).reporter =
      match (Stmt.performAll ss).2 with
      | none => r
      | some x => r.addRuntime x.report := by
  unfold interpret
  rcases Stmt.performAll ss with ⟨lines, _ | x⟩ <;> rfl

theorem interpret_effects (r : Reporter) (ss : List Stmt) :
    (r.interpret ss).effects = (Stmt.performAll ss).1.map Event.output ++
      ((Stmt.performAll ss).2.toList.map RuntimeError.report).map Report.shown := by
  unfold interpret Step.effects
  rcases Stmt.performAll ss with ⟨lines, _ | x⟩
  · simp [Event.visible_outputs]
  · simp only [List.filter_append, Event.visible_outputs]
    rfl

/-- The reporter and the events of a run up to the execution. -/
theorem messages_scan (r : Reporter) (source : String) : (r.scan source).reporter.messages =
    r.messages ++ (Scan.ofText source).errors.map fun e => e.report.text := by
  have h := messages_addSyntaxAll r ((Scan.ofText source).errors.map LexicalError.report)
  rwa [List.map_map] at h

theorem scan_parse_reporter (r : Reporter) (source : String) :
    ((r.scan source).reporter.parse (Cursor.start (r.scan source).value.stream)).reporter =
      r.addSyntaxAll (Scan.ofText source).reports := by
  rw [Scan.reports, addSyntaxAll_append]
  rfl

theorem scan_parse_effects (r : Reporter) (source : String) :
    ((r.scan source).events ++
        ((r.scan source).reporter.parse (Cursor.start (r.scan source).value.stream)).events).filter
          Event.visible =
      (Scan.ofText source).reports.map Report.shown := by
  rw [Scan.reports, List.map_append, ← Event.visible_reports, ← Event.visible_reports]
  simp only [scan, parse, List.filter_append, Event.visible_note, List.append_nil]
  rfl

theorem hadError_iff (r : Reporter) (xs : List Report) :
    (r.addSyntaxAll xs).hadError = true ↔ r.hadError = true ∨ xs ≠ [] := by
  rw [hadError_addSyntaxAll, Bool.or_eq_true, Bool.not_eq_true', List.isEmpty_eq_false_iff]

/-- Where something is wrong with the text, or was wrong before, nothing is
executed. -/
theorem run_of_refused {r : Reporter} {source : String}
    (h : r.hadError = true ∨ (Scan.ofText source).reports ≠ []) :
    (r.run source).reporter = r.addSyntaxAll (Scan.ofText source).reports ∧
      (r.run source).effects = (Scan.ofText source).reports.map Report.shown := by
  have hstop := (hadError_iff r (Scan.ofText source).reports).mpr h
  rw [← scan_parse_reporter] at hstop
  rw [run, if_pos hstop]
  refine ⟨scan_parse_reporter r source, ?_⟩
  rw [Step.effects, List.filter_append, scan_parse_effects, Event.visible_note, List.append_nil]

theorem run_of_clean {r : Reporter} {source : String} (hr : r.hadError = false)
    (h : (Scan.ofText source).reports = []) :
    (r.run source).reporter = (r.interpret (Scan.ofText source).program.statements).reporter ∧
      (r.run source).effects = (r.interpret (Scan.ofText source).program.statements).effects := by
  have hsame := scan_parse_reporter r source
  have hnone := scan_parse_effects r source
  rw [h] at hsame hnone
  have hgo : ¬ ((r.scan source).reporter.parse
      (Cursor.start (r.scan source).value.stream)).reporter.hadError = true := by
    rw [hsame]
    simp [hr]
  rw [run, if_neg hgo]
  simp only [hsame, addSyntaxAll_nil]
  refine ⟨rfl, ?_⟩
  rw [Step.effects, List.filter_append, hnone]
  rfl

theorem run_value (r : Reporter) (source : String) :
    (r.run source).value = (r.run source).reporter.outcome := by
  unfold run
  simp only
  split <;> rfl

/-- A run that leaves it at the reports on its text. -/
structure Refused (r : Reporter) (reports : List Report) (done : Step Outcome) : Prop where
  effects : done.effects = reports.map Report.shown
  messages : done.reporter.messages = r.messages ++ reports.map Report.text
  hadRuntimeError : done.reporter.hadRuntimeError = r.hadRuntimeError

/-- A run that executes the statements `front ++ back`. All of `front` succeed,
and nothing longer does; `lines` are the texts of the values printed by it. What
stands behind it is not executed, apart from the statement that fails. -/
structure Executed (r : Reporter) (front back : List Stmt) (lines : List String)
    (done : Step Outcome) : Prop where
  succeed : ∀ s ∈ front, s.Succeeds
  longest : ∀ w, w <+: front ++ back → (∀ s ∈ w, s.Succeeds) → w.length ≤ front.length
  printed : List.Forall₂ (fun e line => e.eval.map Value.text = .ok line)
    (front.filterMap Stmt.printed?) lines
  ending : match back with
    | [] => done.effects = lines.map Event.output ∧
        done.reporter.messages = r.messages ∧
        done.reporter.hadRuntimeError = r.hadRuntimeError
    | s :: _ => ∃ x, s.expr.eval = .error x ∧
        done.effects = lines.map Event.output ++ [x.report.shown] ∧
        done.reporter.messages = r.messages ++ [x.report.text] ∧
        done.reporter.hadRuntimeError = true

theorem refused_run {r : Reporter} {source : String}
    (h : r.hadError = true ∨ (Scan.ofText source).reports ≠ []) :
    Refused r (Scan.ofText source).reports (r.run source) := by
  obtain ⟨hreporter, heffects⟩ := run_of_refused h
  constructor
  · exact heffects
  · rw [hreporter, messages_addSyntaxAll]
  · rw [hreporter, hadRuntimeError_addSyntaxAll]

theorem executed_run {r : Reporter} {source : String} (hr : r.hadError = false)
    (h : (Scan.ofText source).reports = []) :
    ∃ front back lines, (Scan.ofText source).program.statements = front ++ back ∧
      Executed r front back lines (r.run source) := by
  obtain ⟨hreporter, heffects⟩ := run_of_clean hr h
  rw [interpret_reporter] at hreporter
  rw [interpret_effects] at heffects
  obtain ⟨front, back, hss, hfront, hlines, hback⟩ :=
    Stmt.performAll_split (Scan.ofText source).program.statements
  refine ⟨front, back, _, hss, hfront, ?_, hlines, ?_⟩
  · intro w hw hall
    apply Stmt.length_le_of_succeed hw hall
    rintro s hs ⟨v, hv⟩
    cases back with
    | nil => cases hs
    | cons s' back =>
        obtain rfl : s' = s := by simpa using hs
        obtain ⟨x, hx, _⟩ := hback
        rw [hv] at hx
        cases hx
  · cases back with
    | nil =>
        have hnone : (Stmt.performAll (Scan.ofText source).program.statements).2 = none := hback
        rw [hnone] at hreporter heffects
        rw [hreporter, heffects]
        simp
    | cons s back =>
        obtain ⟨x, hx, hsome⟩ := hback
        rw [hsome] at hreporter heffects
        refine ⟨x, hx, ?_⟩
        rw [hreporter, heffects]
        exact ⟨rfl, rfl, rfl⟩

theorem hadError_run (r : Reporter) (source : String) :
    (r.run source).reporter.hadError = true ↔
      r.hadError = true ∨ (Scan.ofText source).reports ≠ [] := by
  by_cases h : r.hadError = true ∨ (Scan.ofText source).reports ≠ []
  · rw [(run_of_refused h).1, hadError_iff]
  · rw [not_or, Bool.not_eq_true, not_not] at h
    rw [(run_of_clean h.1 h.2).1, interpret_reporter, h.1]
    cases (Stmt.performAll (Scan.ofText source).program.statements).2 with
    | none => simp [h.1, h.2]
    | some x => simp [addRuntime, h.1, h.2]

/-- A run reports all that is wrong with its text, executes nothing if that is
anything, and otherwise everything in front of the first statement that fails. -/
theorem run_all_or_nothing (r : Reporter) (source : String) :
    ∃ s, TokenStream.ofTokens? (Scan.ofText source).tokens = some s ∧
      ((r.run source).reporter.hadError = true ↔ r.hadError = true ∨
        (Scan.ofText source).errors ≠ [] ∨ (Cursor.start s).parse.1.errors ≠ []) ∧
      (if r.hadError = true ∨
          (Scan.ofText source).errors ≠ [] ∨ (Cursor.start s).parse.1.errors ≠ [] then
        Refused r ((Scan.ofText source).errors.map LexicalError.report ++
          (Cursor.start s).parse.1.errors.map SyntaxError.report) (r.run source)
      else
        ∃ front back lines, (Cursor.start s).parse.1.statements = front ++ back ∧
          Executed r front back lines (r.run source)) ∧
      (r.run source).value =
        (if (r.run source).reporter.hadRuntimeError then .runtimeError
        else if (r.run source).reporter.hadError then .syntaxError
        else .ok) := by
  have hstream := Scan.ofTokens?_ofText source
  rw [← Scan.stream_ofText] at hstream
  have hreports : (Scan.ofText source).reports ≠ [] ↔ (Scan.ofText source).errors ≠ [] ∨
      (Cursor.start (Scan.ofText source).stream).parse.1.errors ≠ [] := by
    rw [Ne, Scan.reports_eq_nil_iff, not_and_or]
    rfl
  refine ⟨_, hstream, ?_, ?_, run_value r source⟩
  · rw [hadError_run, hreports]
  · split
    · rename_i h
      rw [← hreports] at h
      exact refused_run h
    · rename_i h
      rw [← hreports, not_or, Bool.not_eq_true, not_not] at h
      exact executed_run h.1 h.2

end Reporter

/-- What is seen of a run with a fresh reporter. -/
structure Account where
  outcome : Outcome
  output : List String
  reports : List Report

namespace Account

/-- The account of a text on which there are these reports, and which reads as
these statements. -/
def of : List Report → List Stmt → Account
  | [], ss =>
      ⟨if (Stmt.performAll ss).2 = none then .ok else .runtimeError, (Stmt.performAll ss).1,
        (Stmt.performAll ss).2.toList.map RuntimeError.report⟩
  | x :: xs, _ => ⟨.syntaxError, [], x :: xs⟩

def ofText (source : String) : Account :=
  of (Scan.ofText source).reports (Scan.ofText source).program.statements

end Account

namespace Reporter

theorem run_fresh (source : String) :
    (fresh.run source).value = (Account.ofText source).outcome ∧
      (fresh.run source).output = (Account.ofText source).output ∧
      (fresh.run source).reporter.messages = (Account.ofText source).reports.map Report.text := by
  rw [run_value, Step.output_eq, Account.ofText]
  cases h : (Scan.ofText source).reports with
  | nil =>
      obtain ⟨hreporter, heffects⟩ := run_of_clean (r := fresh) rfl h
      rw [hreporter, heffects, interpret_reporter, interpret_effects, List.filterMap_append,
        Event.output_outputs, Event.output_reports, List.append_nil, Account.of]
      refine ⟨?_, rfl, ?_⟩
      · cases (Stmt.performAll (Scan.ofText source).program.statements).2 <;> rfl
      · cases (Stmt.performAll (Scan.ofText source).program.statements).2 <;> rfl
  | cons x xs =>
      have hne : (Scan.ofText source).reports ≠ [] := by simp [h]
      obtain ⟨hreporter, heffects⟩ := run_of_refused (r := fresh) (.inr hne)
      rw [hreporter, heffects, Event.output_reports, messages_addSyntaxAll, outcome,
        hadRuntimeError_addSyntaxAll, (hadError_iff _ _).mpr (.inr hne), h]
      exact ⟨rfl, rfl, rfl⟩

end Reporter

end Lox

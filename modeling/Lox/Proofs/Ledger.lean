import Lox.Cli
import Lox.Proofs.Execution
import Lox.Session
import Mathlib.Data.List.DropRight

/-!
# The ledger of a session

The flags of a reporter say what has been reported since it was last reset. A
ledger says it at length: it lists every report of a session, by whether it
concerned a text or a run, and every reset. What an operation enters in it is
found in the text, the tokens or the values that the operation is about, and
for a run also in the ledger so far, but never in the reporter.

After each operation the reporter and the error stream hold what the ledger
says. Therefore nothing is ever taken back, and from an error in a text up to
the next reset no run prints a line or gets as far as a runtime error.
-/
namespace Lox

/-- The reports written during a step, in order. -/
def Step.reports {α : Type} (s : Step α) : List String := s.events.filterMap Event.report?

namespace Event

theorem report_reports (xs : List Report) :
    (xs.flatMap Report.events).filterMap report? = xs.map Report.text := by
  induction xs with
  | nil => rfl
  | cons x xs ih =>
      rw [List.flatMap_cons, List.filterMap_append, ih]
      rfl

theorem report_shown (xs : List Report) :
    (xs.map Report.shown).filterMap report? = xs.map Report.text := by
  induction xs with
  | nil => rfl
  | cons x xs ih => exact congrArg (x.text :: ·) ih

theorem report_outputs (lines : List String) : (lines.map output).filterMap report? = [] := by
  induction lines with
  | nil => rfl
  | cons line lines ih => exact ih

theorem report_visible (es : List Event) :
    (es.filter visible).filterMap report? = es.filterMap report? := by
  induction es with
  | nil => rfl
  | cons e es ih =>
      cases e with
      | output line => exact ih
      | report text => exact congrArg (text :: ·) ih
      | note topic text => exact ih

/-- Where no notes are shown, the error stream holds the reports, each on a line
of its own. -/
theorem stderr_chunksOf (es : List Event) :
    Cli.Chunk.stderr (Cli.chunksOf .warning es) =
      String.join ((es.filterMap report?).map (· ++ "\n")) := by
  unfold Cli.Chunk.stderr String.join
  generalize "" = written
  induction es generalizing written with
  | nil => rfl
  | cons e es ih =>
      cases e with
      | output line =>
          change (Cli.chunksOf .warning es).foldl _ (written ++ "") = _
          rw [String.append_empty]
          exact ih written
      | report text => exact ih (written ++ (text ++ "\n"))
      | note topic text => exact ih written

end Event

namespace Session

inductive Entry where
  /-- A report on the words or the syntax of a text. -/
  | onText (x : Report)
  /-- A report on the running of a program. -/
  | onRun (x : Report)
  | reset
  deriving DecidableEq

namespace Entry

def message? : Entry → Option String
  | onText x => some x.text
  | onRun x => some x.text
  | reset => none

def isOnText : Entry → Bool
  | onText _ => true
  | _ => false

theorem messages_onText (xs : List Report) :
    (xs.map onText).filterMap message? = xs.map Report.text := by
  induction xs with
  | nil => rfl
  | cons x xs ih => exact congrArg (x.text :: ·) ih

theorem messages_onRun (xs : List Report) :
    (xs.map onRun).filterMap message? = xs.map Report.text := by
  induction xs with
  | nil => rfl
  | cons x xs ih => exact congrArg (x.text :: ·) ih

end Entry

/-- The entries behind the last reset. -/
def current (log : List Entry) : List Entry := log.rtakeWhile (· != .reset)

/-- There has been a report on a text since the last reset. -/
def faulty (log : List Entry) : Bool := (current log).any Entry.isOnText

/-- What an operation enters in the ledger `log`. -/
def entries (log : List Entry) : Request → List Entry
  | .run source =>
      (Scan.ofText source).reports.map .onText ++
        if faulty log || !(Scan.ofText source).reports.isEmpty then []
        else
          ((Stmt.performAll (Scan.ofText source).program.statements).2.toList.map
            RuntimeError.report).map .onRun
  | .scan source => ((Scan.ofText source).errors.map LexicalError.report).map .onText
  | .parse source => (Scan.ofText source).reports.map .onText
  | .read ts =>
      match TokenStream.ofTokens? ts with
      | none => []
      | some stream => ((Program.ofStream stream).errors.map SyntaxError.report).map .onText
  | .eval source =>
      ((Scan.ofText source).errors.map LexicalError.report).map .onText ++
        match (Cursor.start (Scan.ofText source).stream).parseExpression.1 with
        | .error x => [.onText x.report]
        | .ok e =>
            match e.eval with
            | .ok _ => []
            | .error x => [.onRun x.report]
  | .error line message => [.onText ⟨line, "", message⟩]
  | .tokenError t message => [.onText ⟨t.line, t.place, message⟩]
  | .runtimeError t message => [.onRun ⟨t.line, "", message⟩]
  | .reset => [.reset]

/-- The ledger of some operations in a row. -/
def ledger (qs : List Request) : List Entry := qs.foldl (fun log q => log ++ entries log q) []

/-- The reporter that some operations in a row leave behind. -/
def reporterAfter (qs : List Request) : Reporter :=
  qs.foldl (fun r q => (step r q).reporter) .fresh

theorem ledger_concat (qs : List Request) (q : Request) :
    ledger (qs ++ [q]) = ledger qs ++ entries (ledger qs) q := by
  unfold ledger
  rw [List.foldl_append]
  rfl

theorem reporterAfter_concat (qs : List Request) (q : Request) :
    reporterAfter (qs ++ [q]) = (step (reporterAfter qs) q).reporter := by
  unfold reporterAfter
  rw [List.foldl_append]
  rfl

/-- The change that an entry stands for. -/
def enter (r : Reporter) : Entry → Reporter
  | .onText x => r.addSyntax x
  | .onRun x => r.addRuntime x
  | .reset => r.reset

theorem enter_onText (r : Reporter) (xs : List Report) :
    (xs.map Entry.onText).foldl enter r = r.addSyntaxAll xs := by
  rw [List.foldl_map]
  rfl

/-- A reporter and the ledger that it goes with. -/
structure Agrees (log : List Entry) (r : Reporter) : Prop where
  messages : r.messages = log.filterMap Entry.message?
  hadError : r.hadError = true ↔ ∃ x, .onText x ∈ current log
  hadRuntimeError : r.hadRuntimeError = true ↔ ∃ x, .onRun x ∈ current log

theorem current_concat {x : Entry} (h : x ≠ .reset) (log : List Entry) :
    current (log ++ [x]) = current log ++ [x] :=
  List.rtakeWhile_concat_pos _ _ _ (bne_iff_ne.mpr h)

theorem current_reset (log : List Entry) : current (log ++ [.reset]) = [] :=
  List.rtakeWhile_concat_neg _ _ _ (by simp)

theorem faulty_iff (log : List Entry) : faulty log = true ↔ ∃ x, .onText x ∈ current log := by
  unfold faulty
  rw [List.any_eq_true]
  constructor
  · rintro ⟨e, hmem, he⟩
    cases e with
    | onText x => exact ⟨x, hmem⟩
    | onRun x => cases he
    | reset => cases he
  · rintro ⟨x, hmem⟩
    exact ⟨_, hmem, rfl⟩

theorem Agrees.enter {log : List Entry} {r : Reporter} (h : Agrees log r) (e : Entry) :
    Agrees (log ++ [e]) (Session.enter r e) := by
  cases e with
  | onText x =>
      constructor
      · rw [List.filterMap_append, ← h.messages]
        rfl
      · rw [current_concat (by simp)]
        exact ⟨fun _ => ⟨x, by simp⟩, fun _ => rfl⟩
      · rw [current_concat (by simp)]
        simpa [Session.enter, Reporter.addSyntax] using h.hadRuntimeError
  | onRun x =>
      constructor
      · rw [List.filterMap_append, ← h.messages]
        rfl
      · rw [current_concat (by simp)]
        simpa [Session.enter, Reporter.addRuntime] using h.hadError
      · rw [current_concat (by simp)]
        exact ⟨fun _ => ⟨x, by simp⟩, fun _ => rfl⟩
  | reset =>
      constructor
      · rw [List.filterMap_append, ← h.messages]
        exact (List.append_nil _).symm
      · rw [current_reset]
        simp [Session.enter, Reporter.reset]
      · rw [current_reset]
        simp [Session.enter, Reporter.reset]

theorem Agrees.enterAll {log : List Entry} {r : Reporter} (h : Agrees log r) (es : List Entry) :
    Agrees (log ++ es) (es.foldl Session.enter r) := by
  induction es generalizing log r with
  | nil => rwa [List.append_nil]
  | cons e es ih =>
      have htail := ih (h.enter e)
      rwa [List.append_assoc] at htail

/-- What a step does is what it enters in the ledger. -/
structure Enters (es : List Entry) (r : Reporter) (s : Step Answer) : Prop where
  reporter : s.reporter = es.foldl enter r
  reports : s.reports = es.filterMap Entry.message?

theorem entries_run_of_refused {log : List Entry} {source : String}
    (h : faulty log = true ∨ (Scan.ofText source).reports ≠ []) :
    entries log (.run source) = (Scan.ofText source).reports.map .onText := by
  have hstop : (faulty log || !(Scan.ofText source).reports.isEmpty) = true := by
    rwa [Bool.or_eq_true, Bool.not_eq_true', List.isEmpty_eq_false_iff]
  rw [entries, if_pos hstop, List.append_nil]

theorem entries_run_of_clean {log : List Entry} {source : String} (hlog : faulty log = false)
    (h : (Scan.ofText source).reports = []) :
    entries log (.run source) =
      ((Stmt.performAll (Scan.ofText source).program.statements).2.toList.map
        RuntimeError.report).map .onRun := by
  rw [entries, h, hlog]
  rfl

theorem enters_run {log : List Entry} {r : Reporter} (h : r.hadError = faulty log)
    (source : String) : Enters (entries log (.run source)) r (step r (.run source)) := by
  have hreports : (step r (.run source)).reports =
      (r.run source).effects.filterMap Event.report? :=
    (Event.report_visible (r.run source).events).symm
  by_cases hstop : r.hadError = true ∨ (Scan.ofText source).reports ≠ []
  · obtain ⟨hreporter, heffects⟩ := Reporter.run_of_refused hstop
    rw [entries_run_of_refused (h ▸ hstop)]
    constructor
    · rw [enter_onText]
      exact hreporter
    · rw [hreports, heffects, Event.report_shown, Entry.messages_onText]
  · rw [not_or, Bool.not_eq_true, not_not] at hstop
    obtain ⟨hreporter, heffects⟩ := Reporter.run_of_clean hstop.1 hstop.2
    rw [entries_run_of_clean (h ▸ hstop.1) hstop.2]
    constructor
    · refine hreporter.trans ?_
      rw [Reporter.interpret_reporter]
      cases (Stmt.performAll (Scan.ofText source).program.statements).2 <;> rfl
    · rw [hreports, heffects, Reporter.interpret_effects, List.filterMap_append,
        Event.report_outputs, Event.report_shown, Entry.messages_onRun]
      rfl

theorem scan_reports (r : Reporter) (source : String) : (r.scan source).reports =
    ((Scan.ofText source).errors.map LexicalError.report).map Report.text := by
  unfold Step.reports Reporter.scan
  rw [List.filterMap_append, Event.report_reports]
  exact List.append_nil _

theorem parse_reports (r : Reporter) (stream : TokenStream) :
    (r.parse (Cursor.start stream)).reports =
      ((Program.ofStream stream).errors.map SyntaxError.report).map Report.text := by
  unfold Step.reports Reporter.parse
  rw [List.filterMap_append, Event.report_reports]
  exact List.append_nil _

theorem enters_parse (r : Reporter) (log : List Entry) (source : String) :
    Enters (entries log (.parse source)) r (step r (.parse source)) := by
  constructor
  · rw [entries, enter_onText]
    exact Reporter.scan_parse_reporter r source
  · rw [entries, Entry.messages_onText, Scan.reports, List.map_append, ← scan_reports r source]
    refine (List.filterMap_append ..).trans ?_
    exact congrArg (_ ++ ·) (parse_reports (r.scan source).reporter (Scan.ofText source).stream)

theorem evaluate_of_error {r : Reporter} {source : String} {x : SyntaxError}
    (h : (Cursor.start (Scan.ofText source).stream).parseExpression.1 = .error x) :
    (evaluate r source).reporter = (r.scan source).reporter.addSyntax x.report ∧
      (evaluate r source).events = (r.scan source).events ++ x.report.events := by
  have hvalue : (r.scan source).value = Scan.ofText source := rfl
  simp only [evaluate, Reporter.parseExpression, hvalue]
  generalize (Cursor.start (Scan.ofText source).stream).parseExpression = parsed at h ⊢
  obtain ⟨_, after⟩ := parsed
  subst h
  exact ⟨rfl, rfl⟩

theorem evaluate_of_ok {r : Reporter} {source : String} {e : Expr}
    (h : (Cursor.start (Scan.ofText source).stream).parseExpression.1 = .ok e) :
    (evaluate r source).reporter = ((r.scan source).reporter.interpretExpression e).reporter ∧
      (evaluate r source).events =
        (r.scan source).events ++ ((r.scan source).reporter.interpretExpression e).events := by
  have hvalue : (r.scan source).value = Scan.ofText source := rfl
  simp only [evaluate, Reporter.parseExpression, hvalue]
  generalize (Cursor.start (Scan.ofText source).stream).parseExpression = parsed at h ⊢
  obtain ⟨_, after⟩ := parsed
  subst h
  simp only [List.append_nil, and_self]

theorem enters_eval (r : Reporter) (log : List Entry) (source : String) :
    Enters (entries log (.eval source)) r (step r (.eval source)) := by
  have hscan := scan_reports r source
  rw [← Entry.messages_onText] at hscan
  have hreporter : (r.scan source).reporter =
      (((Scan.ofText source).errors.map LexicalError.report).map Entry.onText).foldl enter r :=
    (enter_onText r _).symm
  rw [entries]
  cases hread : (Cursor.start (Scan.ofText source).stream).parseExpression.1 with
  | error x =>
      obtain ⟨hleft, hevents⟩ := evaluate_of_error (r := r) hread
      constructor
      · rw [List.foldl_append, ← hreporter]
        exact hleft
      · rw [List.filterMap_append, ← hscan]
        refine (congrArg (List.filterMap Event.report?) hevents).trans ?_
        exact List.filterMap_append ..
  | ok e =>
      obtain ⟨hleft, hevents⟩ := evaluate_of_ok (r := r) hread
      constructor
      · rw [List.foldl_append, ← hreporter]
        refine hleft.trans ?_
        unfold Reporter.interpretExpression
        dsimp only
        cases e.eval <;> rfl
      · rw [List.filterMap_append, ← hscan]
        refine (congrArg (List.filterMap Event.report?) hevents).trans ?_
        refine (List.filterMap_append ..).trans (congrArg (_ ++ ·) ?_)
        unfold Reporter.interpretExpression
        dsimp only
        cases e.eval <;> rfl

theorem enters_step {log : List Entry} {r : Reporter} (h : Agrees log r) (q : Request) :
    Enters (entries log q) r (step r q) := by
  cases q with
  | run source =>
      apply enters_run
      rw [Bool.eq_iff_iff, h.hadError, faulty_iff]
  | scan source =>
      constructor
      · rw [entries, enter_onText]
        rfl
      · rw [entries, Entry.messages_onText]
        exact scan_reports r source
  | parse source => exact enters_parse r log source
  | read ts =>
      rw [entries, step]
      cases TokenStream.ofTokens? ts with
      | none => exact ⟨rfl, rfl⟩
      | some stream =>
          constructor
          · rw [enter_onText]
            rfl
          · rw [Entry.messages_onText]
            exact parse_reports r stream
  | eval source => exact enters_eval r log source
  | error line message => exact ⟨rfl, rfl⟩
  | tokenError t message => exact ⟨rfl, rfl⟩
  | runtimeError t message => exact ⟨rfl, rfl⟩
  | reset => exact ⟨rfl, rfl⟩

/-- Over a whole session the reporter goes with the ledger. -/
theorem agrees_after (qs : List Request) : Agrees (ledger qs) (reporterAfter qs) := by
  induction qs using List.reverseRecOn with
  | nil =>
      constructor
      · rfl
      · simp [ledger, current, reporterAfter, Reporter.fresh]
      · simp [ledger, current, reporterAfter, Reporter.fresh]
  | append_singleton qs q ih =>
      rw [ledger_concat, reporterAfter_concat, (enters_step ih q).reporter]
      exact ih.enterAll _

theorem play_concat (qs : List Request) (q : Request) :
    play .fresh (qs ++ [q]) = play .fresh qs ++ [step (reporterAfter qs) q] := by
  unfold reporterAfter
  generalize Reporter.fresh = r
  induction qs generalizing r with
  | nil => rfl
  | cons p qs ih =>
      have htail := ih (step r p).reporter
      exact congrArg (step r p :: ·) htail

theorem length_play (r : Reporter) (qs : List Request) : (play r qs).length = qs.length := by
  induction qs generalizing r with
  | nil => rfl
  | cons q qs ih => exact congrArg (· + 1) (ih _)

theorem take_play (r : Reporter) (qs : List Request) (n : Nat) :
    (play r qs).take n = play r (qs.take n) := by
  induction qs generalizing r n with
  | nil => rw [List.take_nil, play, List.take_nil]
  | cons q qs ih =>
      cases n with
      | zero => rfl
      | succ n => exact congrArg (step r q :: ·) (ih _ n)

/-- The step at index `i` of a session, and the session up to it. -/
theorem play_at {qs : List Request} {i : Nat} {s : Step Answer}
    (h : (play .fresh qs)[i]? = some s) :
    ∃ q, qs[i]? = some q ∧ qs.take (i + 1) = qs.take i ++ [q] ∧
      s = step (reporterAfter (qs.take i)) q := by
  have hlt : i < (play .fresh qs).length := (List.getElem?_eq_some_iff.mp h).choose
  rw [length_play] at hlt
  have htake : qs.take (i + 1) = qs.take i ++ [qs[i]] := by
    rw [List.take_add_one, List.getElem?_eq_getElem hlt]
    rfl
  refine ⟨qs[i], List.getElem?_eq_getElem hlt, htake, ?_⟩
  have hplay : (play .fresh (qs.take (i + 1)))[i]? = some s := by
    rw [← take_play, List.getElem?_take_of_lt (Nat.lt_succ_self i)]
    exact h
  rw [htake, play_concat, List.getElem?_append_right (by rw [length_play, List.length_take]; omega),
    length_play, List.length_take, Nat.min_eq_left (Nat.le_of_lt hlt), Nat.sub_self] at hplay
  exact (Option.some.inj hplay).symm

theorem reports_play (qs : List Request) :
    ((play .fresh qs).flatMap Step.events).filterMap Event.report? =
      (reporterAfter qs).messages := by
  induction qs using List.reverseRecOn with
  | nil => rfl
  | append_singleton qs q ih =>
      have hbefore := agrees_after qs
      have hafter := agrees_after (qs ++ [q])
      have hstep := (enters_step hbefore q).reports
      unfold Step.reports at hstep
      rw [play_concat, List.flatMap_append, List.filterMap_append, ih, List.flatMap_singleton,
        hstep, hafter.messages, ledger_concat, List.filterMap_append, hbefore.messages]

theorem hadError_enter {r : Reporter} {e : Entry} (he : e ≠ .reset) (h : r.hadError = true) :
    (enter r e).hadError = true := by
  cases e with
  | onText x => rfl
  | onRun x => exact h
  | reset => exact absurd rfl he

theorem hadError_enterAll {r : Reporter} {es : List Entry} (hes : .reset ∉ es)
    (h : r.hadError = true) : (es.foldl enter r).hadError = true := by
  induction es generalizing r with
  | nil => exact h
  | cons e es ih =>
      rw [List.mem_cons, not_or] at hes
      exact ih hes.2 (hadError_enter (Ne.symm hes.1) h)

theorem reset_not_mem_entries {q : Request} (hq : q ≠ .reset) (log : List Entry) :
    .reset ∉ entries log q := by
  cases q with
  | run source =>
      rw [entries]
      split <;> simp
  | read ts =>
      rw [entries]
      split <;> simp
  | eval source =>
      rw [entries]
      split
      · simp
      · split <;> simp
  | reset => exact absurd rfl hq
  | _ => simp [entries]

/-- An error in a text is remembered up to the next reset. -/
theorem hadError_stays {qs : List Request} {j d : Nat}
    (h : (reporterAfter (qs.take (j + 1))).hadError = true)
    (hno : ∀ k, j < k → k ≤ j + d → qs[k]? ≠ some .reset) :
    (reporterAfter (qs.take (j + 1 + d))).hadError = true := by
  induction d with
  | zero => exact h
  | succ d ih =>
      have hbefore := ih fun k hj hk => hno k hj (by omega)
      have hq := hno (j + 1 + d) (by omega) (by omega)
      rw [← Nat.add_assoc, List.take_add_one]
      cases hget : qs[j + 1 + d]? with
      | none => rwa [Option.toList_none, List.append_nil]
      | some q =>
          rw [hget] at hq
          have hne : q ≠ .reset := fun hreset => hq (congrArg some hreset)
          have henters := enters_step (agrees_after (qs.take (j + 1 + d))) q
          rw [Option.toList_some, reporterAfter_concat, henters.reporter]
          exact hadError_enterAll (reset_not_mem_entries hne _) hbefore

/-- After each step of a session the reporter and the error stream hold what the
ledger says. From a step that leaves an error in a text behind it, up to the next
reset, a run does no more than report on its own text. -/
theorem play_agrees_with_ledger (qs : List Request) (i : Nat) (s : Step Answer)
    (h : (play .fresh qs)[i]? = some s) :
    s.reporter.messages = (reporterAfter (qs.take i)).messages ++ s.reports ∧
      Cli.Chunk.stderr
          (Cli.chunksOf .warning (((play .fresh qs).take (i + 1)).flatMap Step.events)) =
        String.join (s.reporter.messages.map (· ++ "\n")) ∧
      Agrees (ledger (qs.take (i + 1))) s.reporter ∧
      s.reporter.outcome =
        (if s.reporter.hadRuntimeError then .runtimeError
        else if s.reporter.hadError then .syntaxError
        else .ok) ∧
      ∀ j s' source, j ≤ i → (play .fresh qs)[j]? = some s' → s'.reporter.hadError = true →
        (∀ k, j < k → k ≤ i → qs[k]? ≠ some .reset) → qs[i]? = some (.run source) →
        s.output = [] ∧ s.effects = (Scan.ofText source).reports.map Report.shown ∧
          ledger (qs.take (i + 1)) =
            ledger (qs.take i) ++ (Scan.ofText source).reports.map .onText ∧
          s.reporter.hadRuntimeError = (reporterAfter (qs.take i)).hadRuntimeError := by
  obtain ⟨q, hq, htake, rfl⟩ := play_at h
  have hbefore := agrees_after (qs.take i)
  have henters := enters_step hbefore q
  have hafter : reporterAfter (qs.take (i + 1)) =
      (step (reporterAfter (qs.take i)) q).reporter := by
    rw [htake, reporterAfter_concat]
  have hagrees := agrees_after (qs.take (i + 1))
  rw [hafter] at hagrees
  refine ⟨?_, ?_, hagrees, rfl, ?_⟩
  · rw [hagrees.messages, htake, ledger_concat, List.filterMap_append, ← henters.reports,
      ← hbefore.messages]
  · rw [Event.stderr_chunksOf, take_play, reports_play, hafter]
  · intro j s' source hj hs' herror hno hrun
    obtain rfl : q = .run source := Option.some.inj (hq.symm.trans hrun)
    obtain ⟨q', hq', htake', rfl⟩ := play_at hs'
    rw [← reporterAfter_concat, ← htake'] at herror
    -- The error is still there behind step `i`, which is the run in question.
    obtain ⟨d, rfl⟩ : ∃ d, i = j + d := ⟨i - j, by omega⟩
    have hstill := hadError_stays herror hno
    rw [Nat.add_right_comm, hafter] at hstill
    have hstop := (Reporter.hadError_run _ _).mp hstill
    obtain ⟨hreporter, heffects⟩ := Reporter.run_of_refused hstop
    have hfaulty : (reporterAfter (qs.take (j + d))).hadError =
        faulty (ledger (qs.take (j + d))) := by
      rw [Bool.eq_iff_iff, hbefore.hadError, faulty_iff]
    rw [htake, ledger_concat, entries_run_of_refused (hfaulty ▸ hstop)]
    refine ⟨?_, heffects, rfl, ?_⟩
    · rw [Step.output_eq]
      refine (congrArg (List.filterMap Event.output?) heffects).trans ?_
      exact Event.output_reports _
    · refine (congrArg Reporter.hadRuntimeError hreporter).trans ?_
      exact Reporter.hadRuntimeError_addSyntaxAll _ _

/-- A text with a stray character is scanned before another one is run. -/
def scanThenRun : List Request := [.scan "#", .run "print 1; -nil;", .reset]

/-- An error in the first text keeps the second from being run, which would print
a line and fail. -/
theorem play_agrees_with_ledger_silent :
    ∃ s, (play .fresh scanThenRun)[1]? = some s ∧
      s.output = [] ∧ s.effects = [] ∧
      Cli.Chunk.stderr (Cli.chunksOf .warning
          (((play .fresh scanThenRun).take 2).flatMap Step.events)) =
        "[line 1] Error: Unexpected character.\n" := by
  have h : (play .fresh scanThenRun)[1]? =
      some (step (step .fresh (.scan "#")).reporter (.run "print 1; -nil;")) := rfl
  have hmessages : (step (step .fresh (.scan "#")).reporter
      (.run "print 1; -nil;")).reporter.messages = ["[line 1] Error: Unexpected character."] := by
    decide +kernel
  have herror : (step .fresh (.scan "#")).reporter.hadError = true := by decide +kernel
  have hclean : (Scan.ofText "print 1; -nil;").reports = [] := by decide +kernel
  obtain ⟨_, hwritten, _, _, hsilent⟩ := play_agrees_with_ledger _ _ _ h
  have hno : ∀ k, 0 < k → k ≤ 1 → scanThenRun[k]? ≠ some .reset := by
    intro k hlow hhigh
    obtain rfl : k = 1 := Nat.le_antisymm hhigh hlow
    simp [scanThenRun]
  obtain ⟨houtput, heffects, _⟩ := hsilent 0 _ _ (Nat.zero_le 1) rfl herror hno rfl
  rw [hclean] at heffects
  rw [hmessages] at hwritten
  exact ⟨_, h, houtput, heffects, hwritten⟩

end Session

end Lox

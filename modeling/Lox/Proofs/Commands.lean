import Lox.Proofs.Ledger

/-!
# Three commands on one script

A script can be run, its tokens can be listed and its trees shown. The commands
read, scan and parse it each for itself, and go on for different lengths. They fail
alike on a script that cannot be read. Of any other script each of them reports all
that the shorter ones report, in the same order and before anything else, so that
much of their statuses and streams can be told from one another.
-/
namespace Lox

/-- A run with a fresh reporter writes the messages that the reporter holds. -/
theorem Reporter.reports_run (source : String) :
    (fresh.run source).reports = (fresh.run source).reporter.messages := by
  have hplay := Session.reports_play [.run source]
  rw [Session.play, Session.play, List.flatMap_singleton] at hplay
  exact hplay

namespace Cli

/-! ## Command lines -/

/-- The options in front of a command are in order: they give this log level, if
any, and the command has this name and these arguments. -/
structure Names (args : List String) (level : Option String) (name : String)
    (rest : List String) : Prop where
  read : ∃ a, Arguments.read? mainSpec args = some a ∧ a.flags = [] ∧
    a.others = name :: rest ∧ a.value? "log-level" = level
  known : name ∈ commandNames

/-- A command line that asks for a command. -/
def Asks (args : List String) (level : Option String) (c : Command) : Prop :=
  ∃ name rest, Names args level name rest ∧ request? name rest = some (.command c)

theorem read?_of_known {name : String} (h : name ∈ commandNames) (rest : List String) :
    Arguments.read? mainSpec (name :: rest) = some ⟨[], [], name :: rest⟩ := by
  simp only [commandNames, List.mem_cons, List.not_mem_nil, or_false] at h
  rcases h with rfl | rfl | rfl | rfl <;> rfl

theorem names_level (level : String) {name : String} (h : name ∈ commandNames)
    (rest : List String) :
    Names ("--log-level" :: level :: name :: rest) (some level) name rest := by
  refine ⟨⟨⟨[], [("log-level", level)], name :: rest⟩, ?_, rfl, rfl, rfl⟩, h⟩
  exact congrArg (Option.map (Arguments.addValue "log-level" level)) (read?_of_known h rest)

section
variable {h : Host} {w : Workspace} {env : List (String × String)} {args : List String}
  {level : Option String}

theorem launch_of_names {name : String} {rest : List String} (hnames : Names args level name rest) :
    launch h w env args = dispatch w env level name rest := by
  obtain ⟨⟨⟨flags, values, others⟩, hread, rfl, rfl, rfl⟩, hknown⟩ := hnames
  have hne : ¬ args.isEmpty = true := by
    intro hempty
    rw [List.isEmpty_iff] at hempty
    subst hempty
    cases hread
  rw [launch, if_neg hne, hread]
  simp only [List.contains_iff_mem, hknown, if_true]

/-- With valid settings a command line does what the command does that it asks for. -/
theorem execute_of_asks {c : Command} {s : Settings} {e : Ending} {stdin : String}
    (hasks : Asks args level c) (hs : settings w env level = .ok s)
    (hc : carryOut w s c = .ended e) : execute h w env args stdin = e := by
  obtain ⟨name, rest, hnames, hrequest⟩ := hasks
  rw [execute, launch_of_names hnames, dispatch, hs]
  simp only [hrequest, hc]

end

/-! ## Streams -/

/-- What is seen of a command line that has ended. -/
structure Seen where
  status : Nat
  stdout : String
  stderr : String
  deriving DecidableEq

def Ending.seen? : Ending → Option Seen
  | .exited status chunks => some ⟨status, Chunk.stdout chunks, Chunk.stderr chunks⟩
  | .crashed _ => none

/-- Texts on lines of their own. -/
def onLines (texts : List String) : String := String.join (texts.map (· ++ "\n"))

theorem onLines_append (as bs : List String) : onLines (as ++ bs) = onLines as ++ onLines bs := by
  rw [onLines, List.map_append, String.join_append]
  rfl

namespace Chunk

theorem stdout_eq (cs : List Chunk) : stdout cs = String.join (cs.map out?) := by
  rw [stdout, String.join, List.foldl_map]

theorem stderr_eq (cs : List Chunk) : stderr cs = String.join (cs.map err?) := by
  rw [stderr, String.join, List.foldl_map]

theorem stderr_append (as bs : List Chunk) : stderr (as ++ bs) = stderr as ++ stderr bs := by
  rw [stderr_eq, stderr_eq, stderr_eq, List.map_append, String.join_append]

theorem stderr_map_out {α : Type} (f : α → String) (xs : List α) :
    stderr (xs.map fun x => out (f x)) = "" := by
  rw [stderr_eq, List.map_map]
  induction xs with
  | nil => rfl
  | cons x xs ih =>
      rw [List.map_cons, String.join_cons, ih]
      rfl

end Chunk

theorem exitCode_addSyntaxAll (xs : List Report) :
    (Reporter.fresh.addSyntaxAll xs).outcome.exitCode = if xs = [] then 0 else 65 := by
  rw [Reporter.outcome, Reporter.hadRuntimeError_addSyntaxAll, Reporter.hadError_addSyntaxAll]
  cases xs <;> rfl

section
variable {level : LogLevel} (hquiet : level.showsNotes = false)
include hquiet

theorem chunksOf_note (topic : Topic) (text : String) : chunksOf level [.note topic text] = [] := by
  simp [chunksOf, hquiet]

theorem chunksOf_concat_note (es : List Event) (topic : Topic) (text : String) :
    chunksOf level (es ++ [.note topic text]) = chunksOf level es := by
  refine (List.filterMap_append ..).trans ?_
  exact (congrArg (_ ++ ·) (chunksOf_note hquiet topic text)).trans (List.append_nil _)

theorem chunksOf_quiet (es : List Event) : chunksOf level es = chunksOf .warning es := by
  have hwarning : LogLevel.warning.showsNotes = false := rfl
  simp only [chunksOf, hquiet, hwarning]

theorem stderr_quiet (es : List Event) :
    Chunk.stderr (chunksOf level es) = onLines (es.filterMap Event.report?) := by
  rw [chunksOf_quiet hquiet, Event.stderr_chunksOf]
  rfl

theorem stdout_quiet (es : List Event) :
    Chunk.stdout (chunksOf level es) = onLines (es.filterMap Event.output?) := by
  rw [chunksOf_quiet hquiet, Chunk.stdout_eq]
  induction es with
  | nil => rfl
  | cons e es ih =>
      cases e with
      | output line =>
          change String.join ((line ++ "\n") :: (chunksOf .warning es).map Chunk.out?) =
            String.join ((line ++ "\n") :: (es.filterMap Event.output?).map (· ++ "\n"))
          rw [String.join_cons, String.join_cons, ih]
          rfl
      | report text =>
          change String.join ("" :: (chunksOf .warning es).map Chunk.out?) = _
          rw [String.join_cons, String.empty_append]
          exact ih
      | note topic text => exact ih

/-! ## What each command shows -/

theorem listTokens_seen (script : Path) (source : String) :
    ∃ stdout, (listTokens level script true source).seen? = some
      ⟨if (Scan.ofText source).errors = [] then 0 else 65, stdout,
        onLines (((Scan.ofText source).errors.map LexicalError.report).map Report.text)⟩ := by
  refine ⟨_, congrArg some (congr (congr (congrArg Seen.mk ?_) rfl) ?_)⟩
  · refine (exitCode_addSyntaxAll _).trans ?_
    simp only [List.map_eq_nil_iff]
  · rw [if_pos rfl, Chunk.stderr_append, stderr_quiet hquiet, Chunk.stderr_map_out,
      String.append_empty, ← Session.scan_reports .fresh source]
    rfl

theorem showTrees_seen (source : String) :
    ∃ stdout, (showTrees level false source).seen? = some
      ⟨if (Scan.ofText source).reports = [] then 0 else 65, stdout,
        onLines ((Scan.ofText source).reports.map Report.text)⟩ := by
  refine ⟨_, congrArg some (congr (congr (congrArg Seen.mk ?_) rfl) ?_)⟩
  · rw [Reporter.scan_parse_reporter, exitCode_addSyntaxAll]
  · rw [Chunk.stderr_append, stderr_quiet hquiet, Chunk.stderr_map_out, String.append_empty,
      List.filterMap_append, Scan.reports, List.map_append, ← Session.scan_reports .fresh source]
    exact congrArg (fun xs => onLines (_ ++ xs)) (Session.parse_reports _ _)

theorem runScript_seen {bytes : List UInt8} {source : String}
    (hsource : Script.source bytes = .ok source) (script : Path) :
    (runScript level script bytes).seen? = some
      ⟨(Account.ofText source).outcome.exitCode, onLines (Account.ofText source).output,
        onLines ((Account.ofText source).reports.map Report.text)⟩ := by
  obtain ⟨hvalue, houtput, hmessages⟩ := Reporter.run_fresh source
  rw [← hvalue, ← houtput, ← hmessages, ← Reporter.reports_run]
  rw [runScript, Script.run, hsource, chunksOf_note hquiet]
  simp only [Except.map, Ending.seen?, List.nil_append, chunksOf_concat_note hquiet,
    stdout_quiet hquiet, stderr_quiet hquiet]
  rfl

end

/-! ## Agreement -/

/-- The source text of a script that is there and can be decoded. -/
def Reads (w : Workspace) (script : Path) (source : String) : Prop :=
  ∃ bytes, w.file? script = some bytes ∧ Script.source bytes = .ok source

/-- The three commands have found nothing to read, and say so in the same way. -/
structure Unread (run tokens ast : Seen) : Prop where
  status : run.status = 66 ∧ tokens.status = 66 ∧ ast.status = 66
  stdout : run.stdout = "" ∧ tokens.stdout = "" ∧ ast.stdout = ""
  stderr : tokens.stderr = run.stderr ∧ ast.stderr = run.stderr

/-- The three commands have read `source`, and agree on it. -/
structure Agree (source : String) (run tokens ast : Seen) : Prop where
  status_ne : run.status ≠ 66 ∧ tokens.status ≠ 66 ∧ ast.status ≠ 66
  ast_status : ast.status = 0 ∨ ast.status = 65
  tokens_ast : tokens.stderr.toList <+: ast.stderr.toList
  ast_run : ast.stderr.toList <+: run.stderr.toList
  refused_iff : run.status = 65 ↔ ast.status = 65
  refused_silent : run.status = 65 → run.stdout = ""
  refused_tokens : tokens.status = 65 → ast.status = 65
  accepted : ast.status = 0 → ast.stderr = "" ∧
    (run.status = 0 ∧ run.stderr = ast.stderr ∨ run.status = 70 ∧ ∃ x : RuntimeError,
      (Stmt.performAll (Scan.ofText source).program.statements).2 = some x ∧
        run.stderr = x.report.text ++ "\n")

theorem onLines_prefix {as bs : List Report} (h : as <+: bs) :
    (onLines (as.map Report.text)).toList <+: (onLines (bs.map Report.text)).toList := by
  obtain ⟨more, rfl⟩ := h
  rw [List.map_append, onLines_append, String.toList_append]
  exact List.prefix_append _ _

/-- Reports on the text are all there is, or else there are none and the text is
run. -/
theorem agree_of_source (source stdout stdout' : String) :
    Agree source
      ⟨(Account.ofText source).outcome.exitCode, onLines (Account.ofText source).output,
        onLines ((Account.ofText source).reports.map Report.text)⟩
      ⟨if (Scan.ofText source).errors = [] then 0 else 65, stdout,
        onLines (((Scan.ofText source).errors.map LexicalError.report).map Report.text)⟩
      ⟨if (Scan.ofText source).reports = [] then 0 else 65, stdout',
        onLines ((Scan.ofText source).reports.map Report.text)⟩ := by
  have htokens : (Scan.ofText source).errors.map LexicalError.report <+:
      (Scan.ofText source).reports := List.prefix_append _ _
  have hlexical (h : (Scan.ofText source).reports = []) : (Scan.ofText source).errors = [] :=
    ((Scan.reports_eq_nil_iff _).mp h).1
  have hstatus : ¬ (if (Scan.ofText source).errors = [] then 0 else 65) = 66 := by
    split <;> decide
  have hnothing : onLines [] = "" := rfl
  rw [Account.ofText]
  cases hreports : (Scan.ofText source).reports with
  | nil =>
      rw [hlexical hreports, Account.of]
      cases hstop : (Stmt.performAll (Scan.ofText source).program.statements).2 with
      | none => constructor <;> simp [Outcome.exitCode, hnothing]
      | some x => constructor <;> simp [Outcome.exitCode, onLines, hstop]
  | cons x xs =>
      rw [hreports] at htokens
      constructor
      case tokens_ast => exact onLines_prefix htokens
      all_goals simp [Outcome.exitCode, Account.of, hnothing, hstatus]

theorem cannotOpen_eq (w : Workspace) (script : Path) :
    ∃ text, cannotOpen w script = .exited 66 [.err text] := by
  unfold cannotOpen
  split
  · exact ⟨_, rfl⟩
  · exact ⟨_, rfl⟩

section
variable {w : Workspace} {s : Settings} {script : Path} (hquiet : s.logLevel.showsNotes = false)
include hquiet

/-- Without a text to read, all three commands end with the same line. -/
theorem carryOut_of_unread (hno : ∀ source, ¬ Reads w script source) :
    ∃ text, carryOut w s (.run script) = .ended (.exited 66 [.err text]) ∧
      carryOut w s (.tokens script true) = .ended (.exited 66 [.err text]) ∧
      carryOut w s (.ast script false) = .ended (.exited 66 [.err text]) := by
  cases hfile : w.file? script with
  | none =>
      obtain ⟨text, htext⟩ := cannotOpen_eq w script
      simp only [carryOut, hfile, htext]
      exact ⟨text, rfl, rfl, rfl⟩
  | some bytes =>
      cases hsource : Script.source bytes with
      | ok source => exact absurd ⟨bytes, hfile, hsource⟩ (hno source)
      | error e =>
          simp only [carryOut, hfile, runScript, Script.run, withSource, hsource, Except.map,
            chunksOf_note hquiet]
          exact ⟨_, rfl, rfl, rfl⟩

/-- With a text to read, each command ends as the stages that it goes through do. -/
theorem carryOut_of_reads {source : String} (hreads : Reads w script source) :
    ∃ run tokens ast : Ending, carryOut w s (.run script) = .ended run ∧
      carryOut w s (.tokens script true) = .ended tokens ∧
      carryOut w s (.ast script false) = .ended ast ∧
      ∃ x y z, run.seen? = some x ∧ tokens.seen? = some y ∧ ast.seen? = some z ∧
        Agree source x y z := by
  obtain ⟨bytes, hfile, hsource⟩ := hreads
  obtain ⟨stdout, htokens⟩ := listTokens_seen hquiet script source
  obtain ⟨stdout', hast⟩ := showTrees_seen hquiet source
  have hrun := runScript_seen hquiet hsource script
  simp only [carryOut, hfile, withSource, hsource]
  exact ⟨_, _, _, rfl, rfl, rfl, _, _, _, hrun, htokens, hast, agree_of_source _ _ _⟩

end

/-- Run, listed and shown with the same settings, a script is unreadable to all three
commands or to none. If it can be read, they agree on it. -/
theorem commands_agree (h : Host) (w : Workspace) (env : List (String × String))
    (level : Option String) (s : Settings) (script : Path)
    (runArgs tokensArgs astArgs : List String) (stdin : String)
    (hs : settings w env level = .ok s) (hquiet : s.logLevel.showsNotes = false)
    (hrun : Asks runArgs level (.run script))
    (htokens : Asks tokensArgs level (.tokens script true))
    (hast : Asks astArgs level (.ast script false)) :
    ∃ run tokens ast, (execute h w env runArgs stdin).seen? = some run ∧
      (execute h w env tokensArgs stdin).seen? = some tokens ∧
      (execute h w env astArgs stdin).seen? = some ast ∧
      ((∀ source, ¬ Reads w script source) ∧ Unread run tokens ast ∨
        ∃ source, Reads w script source ∧ Agree source run tokens ast) := by
  by_cases hread : ∃ source, Reads w script source
  · obtain ⟨source, hsource⟩ := hread
    obtain ⟨run, tokens, ast, hrun', htokens', hast', x, y, z, hx, hy, hz, hagree⟩ :=
      carryOut_of_reads hquiet hsource
    rw [execute_of_asks hrun hs hrun', execute_of_asks htokens hs htokens',
      execute_of_asks hast hs hast']
    exact ⟨x, y, z, hx, hy, hz, .inr ⟨source, hsource, hagree⟩⟩
  · rw [not_exists] at hread
    obtain ⟨text, hrun', htokens', hast'⟩ := carryOut_of_unread hquiet hread
    rw [execute_of_asks hrun hs hrun', execute_of_asks htokens hs htokens',
      execute_of_asks hast hs hast']
    refine ⟨_, _, _, rfl, rfl, rfl, .inl ⟨hread, ?_⟩⟩
    exact ⟨⟨rfl, rfl, rfl⟩, ⟨rfl, rfl, rfl⟩, ⟨rfl, rfl⟩⟩

/-- A script with a parenthesis that none opens. -/
def strayParenthesis : Workspace :=
  Workspace.ofList [("m", .file "print nil; )".toUTF8.toList)]

/-- A stray parenthesis is an error to the command that shows trees. So it keeps the
first statement from being run. -/
theorem commands_agree_refused :
    settings strayParenthesis [] (some "error") = .ok ⟨"> ", .error, true⟩ ∧
      Asks ["--log-level", "error", "run", "m"] (some "error") (.run (Path.ofText "m")) ∧
      Asks ["--log-level", "error", "tokens", "m", "--plain"] (some "error")
        (.tokens (Path.ofText "m") true) ∧
      Asks ["--log-level", "error", "ast", "m"] (some "error") (.ast (Path.ofText "m") false) ∧
      ∃ run, (execute ⟨"", "", ""⟩ strayParenthesis []
          ["--log-level", "error", "run", "m"] "").seen? = some run ∧
        run.status = 65 ∧ run.stdout = "" := by
  have hs : settings strayParenthesis [] (some "error") = .ok ⟨"> ", .error, true⟩ := rfl
  have hrun : Asks ["--log-level", "error", "run", "m"] (some "error") (.run (Path.ofText "m")) :=
    ⟨_, _, names_level _ (by decide) _, by decide⟩
  have htokens : Asks ["--log-level", "error", "tokens", "m", "--plain"] (some "error")
      (.tokens (Path.ofText "m") true) :=
    ⟨_, _, names_level _ (by decide) _, by decide⟩
  have hast : Asks ["--log-level", "error", "ast", "m"] (some "error")
      (.ast (Path.ofText "m") false) :=
    ⟨_, _, names_level _ (by decide) _, by decide⟩
  have hshown : (execute ⟨"", "", ""⟩ strayParenthesis []
      ["--log-level", "error", "ast", "m"] "").seen? =
        some ⟨65, "(print nil)\n", "[line 1] Error at ')': Expect expression.\n"⟩ := by
    decide +kernel
  refine ⟨hs, hrun, htokens, hast, ?_⟩
  obtain ⟨run, tokens, ast, hrun', _, hast', hcases⟩ :=
    commands_agree ⟨"", "", ""⟩ _ _ _ _ _ _ _ _ "" hs rfl hrun htokens hast
  obtain rfl := Option.some.inj (hshown.symm.trans hast')
  rcases hcases with ⟨_, hunread⟩ | ⟨source, _, hagree⟩
  · exact absurd hunread.status.2.2 (by decide)
  · have hrefused := hagree.refused_iff.mpr rfl
    exact ⟨run, hrun', hrefused, hagree.refused_silent hrefused⟩

end Cli

end Lox

import Lox.Proofs.Relining

/-!
# Layout

Blanks, line breaks and comments between words change lines and nothing else: a
word's lexeme and kind fix the value it stands for. Two texts of the same words
are therefore the same text once all words are put on one line, and since runs
carry lines along, they run alike.
-/
namespace Lox

namespace Scan

/-- Tokens that agree in kind and lexeme are the same on a common line. -/
theorem map_reline_eq {ts us : List Token} {n : Nat}
    (h : List.Forall₂ (fun t u => t.kind = u.kind ∧ t.lexeme = u.lexeme) ts us)
    (hts : ∀ t ∈ ts, t.literal = Token.decode t.kind t.lexeme)
    (hus : ∀ u ∈ us, u.literal = Token.decode u.kind u.lexeme) :
    ts.map (Token.reline fun _ => n) = us.map (Token.reline fun _ => n) := by
  induction h with
  | nil => rfl
  | @cons t u ts us htu _ ih =>
      have hliteral : t.literal = u.literal := by
        rw [hts t (by simp), hus u (by simp), htu.1, htu.2]
      have hsame : t.reline (fun _ => n) = u.reline fun _ => n := by
        unfold Token.reline
        rw [htu.1, htu.2, hliteral]
      rw [List.map_cons, List.map_cons, hsame, ih]
      · intro t ht
        exact hts t (by simp [ht])
      · intro u hu
        exact hus u (by simp [hu])

/-- Texts of the same words are the same program on a common line. -/
theorem program_reline_eq {s s' : String} {n : Nat}
    (h : List.Forall₂ (fun t u => t.kind = u.kind ∧ t.lexeme = u.lexeme)
      (ofText s).tokens (ofText s').tokens) :
    (ofText s).program.reline (fun _ => n) = (ofText s').program.reline fun _ => n := by
  have htokens := map_reline_eq (n := n) h literal_eq_decode literal_eq_decode
  have hstop (source : String) :
      (Token.endOf (lines source)).reline (fun _ => n) = Token.endOf n := rfl
  rw [tokens_ofText, tokens_ofText, List.map_append, List.map_append, List.map_singleton,
    List.map_singleton, hstop, hstop] at htokens
  have hwords := List.append_cancel_right htokens
  rw [program_ofText, program_ofText, ← Program.ofStream_reline, ← Program.ofStream_reline, hwords,
    hstop, hstop]

end Scan

namespace Report

/-- The same report on the first line. -/
def level (x : Report) : Report := { x with line := 1 }

theorem follows_level : Follows (fun _ => 1) level := by
  intro line place message
  rfl

/-- Texts of reports that differ in nothing but their line. -/
def SameButLine (m m' : String) : Prop :=
  ∃ (line line' : Int) (place message : String),
    m = text ⟨line, place, message⟩ ∧ m' = text ⟨line', place, message⟩

theorem sameButLine_of_level {x y : Report} (h : x.level = y.level) :
    SameButLine x.text y.text := by
  obtain ⟨line, place, message⟩ := x
  obtain ⟨line', place', message'⟩ := y
  cases h
  exact ⟨line, line', place, message, rfl, rfl⟩

end Report

namespace Account

/-- Reports on the text and statements that agree on the first line give
accounts that agree there. -/
theorem of_eq_of_level {xs ys : List Report} {ss ts : List Stmt}
    (hreports : xs.map Report.level = ys.map Report.level)
    (hstatements : ss.map (Stmt.reline fun _ => 1) = ts.map (Stmt.reline fun _ => 1)) :
    (of xs ss).outcome = (of ys ts).outcome ∧ (of xs ss).output = (of ys ts).output ∧
      (of xs ss).reports.map Report.level = (of ys ts).reports.map Report.level := by
  have hx := of_reline Report.follows_level xs ss
  have hy := of_reline Report.follows_level ys ts
  rw [hreports, hstatements, hy] at hx
  simp only [Account.mk.injEq] at hx
  exact ⟨hx.1.symm, hx.2.1.symm, hx.2.2.symm⟩

end Account

namespace Reporter

/-- Texts of the same words run alike. -/
theorem run_same_words (s s' : String) (hscan : (Scan.ofText s).errors = [])
    (hscan' : (Scan.ofText s').errors = [])
    (hwords : List.Forall₂ (fun t u => t.kind = u.kind ∧ t.lexeme = u.lexeme)
      (Scan.ofText s).tokens (Scan.ofText s').tokens) :
    (fresh.run s).value = (fresh.run s').value ∧
      (fresh.run s).output = (fresh.run s').output ∧
      List.Forall₂ Report.SameButLine (fresh.run s).reporter.messages
        (fresh.run s').reporter.messages := by
  have hprogram := Scan.program_reline_eq (n := 1) hwords
  have hreports : (Scan.ofText s).reports.map Report.level =
      (Scan.ofText s').reports.map Report.level := by
    have h := Scan.reports_reline Report.follows_level (Scan.ofText s).errors
      (Scan.ofText s).program
    have h' := Scan.reports_reline Report.follows_level (Scan.ofText s').errors
      (Scan.ofText s').program
    rw [Scan.reports, Scan.reports, ← h, ← h', hscan, hscan', hprogram]
  have hstatements := congrArg Program.statements hprogram
  obtain ⟨houtcome, houtput, hlevel⟩ := Account.of_eq_of_level hreports hstatements
  obtain ⟨hv, ho, hm⟩ := run_fresh s
  obtain ⟨hv', ho', hm'⟩ := run_fresh s'
  rw [hv, ho, hm, hv', ho', hm']
  refine ⟨houtcome, houtput, ?_⟩
  rw [← List.forall₂_eq_eq_eq, List.forall₂_map_left_iff, List.forall₂_map_right_iff] at hlevel
  rw [List.forall₂_map_left_iff, List.forall₂_map_right_iff]
  exact hlevel.imp fun _ _ h => Report.sameButLine_of_level h

/-- Two errors on one line. -/
def twoErrors : String := "print (\"a\"; + \"b\";"

/-- The words of `twoErrors`, over four lines and with a comment. -/
def twoErrorsSpread : String := "print // one\n(\"a\"\n\n;+\t\"b\" ;\n"

/-- Two errors, on one line and spread over many. -/
theorem run_same_words_spread :
    List.Forall₂ (fun t u => t.kind = u.kind ∧ t.lexeme = u.lexeme)
        (Scan.ofText twoErrors).tokens (Scan.ofText twoErrorsSpread).tokens ∧
      (fresh.run twoErrorsSpread).value = .syntaxError ∧
      List.Forall₂ Report.SameButLine
        ["[line 1] Error at ';': Expect ')' after expression.",
          "[line 1] Error at '+': Expect expression."]
        (fresh.run twoErrorsSpread).reporter.messages := by
  have hwords : List.Forall₂ (fun t u => t.kind = u.kind ∧ t.lexeme = u.lexeme)
      (Scan.ofText twoErrors).tokens (Scan.ofText twoErrorsSpread).tokens := by decide +kernel
  have hvalue : (fresh.run twoErrors).value = .syntaxError := by decide +kernel
  have hmessages : (fresh.run twoErrors).reporter.messages =
      ["[line 1] Error at ';': Expect ')' after expression.",
        "[line 1] Error at '+': Expect expression."] := by decide +kernel
  have h := run_same_words _ _ (by decide +kernel) (by decide +kernel) hwords
  rw [hvalue, hmessages] at h
  exact ⟨hwords, h.1.symm, h.2.2⟩

end Reporter

end Lox

import Lox.Proofs.Execution

/-!
# Lines counted off the text

A scan adds up the line breaks of the pieces that it passes. Here the lines are
counted off the text instead. Each piece fills the text between two places, and
the token or the error that it gives rise to is on the line of the second of them,
which only for a string can be another line than that of the first. The line of a
place is one more than the number of line breaks in front of it, so that lines
never decrease from one token to the next.
-/
namespace Lox

namespace Piece

/-- Behind the pieces `front`, the piece `p` fills the text from `start` up to
`stop`. -/
structure Fills (cs : List Char) (front : List Piece) (p : Piece) (start stop : Nat) : Prop where
  cut : ∃ back, Decomposes cs (front ++ p :: back)
  starts : start = (front.flatMap text).length
  stops : stop = start + p.text.length

theorem fills_of_pieces {cs : List Char} {front back : List Piece} {p : Piece}
    (h : pieces cs = front ++ p :: back) :
    ∃ start stop, Fills cs front p start stop := by
  have hcut := pieces_decomposes cs
  rw [h] at hcut
  exact ⟨_, _, ⟨back, hcut⟩, rfl, rfl⟩

namespace Fills
variable {cs : List Char} {front : List Piece} {p : Piece} {start stop : Nat}

theorem exists_rest (h : Fills cs front p start stop) :
    ∃ rest, cs = front.flatMap text ++ (p.text ++ rest) ∧ Stands p rest := by
  obtain ⟨back, hcut⟩ := h.cut
  exact hcut.split

theorem take_start (h : Fills cs front p start stop) : cs.take start = front.flatMap text := by
  obtain ⟨rest, hcs, _⟩ := h.exists_rest
  rw [hcs, h.starts, List.take_left]

theorem take_stop (h : Fills cs front p start stop) :
    cs.take stop = front.flatMap text ++ p.text := by
  obtain ⟨rest, hcs, _⟩ := h.exists_rest
  rw [hcs, h.stops, h.starts, ← List.append_assoc, ← List.length_append, List.take_left]

/-- The characters between the two places are those of the piece. -/
theorem between (h : Fills cs front p start stop) : (cs.take stop).drop start = p.text := by
  rw [h.take_stop, h.starts, List.drop_left]

theorem breaks_before (h : Fills cs front p start stop) :
    (cs.take start).count '\n' = breaks front := by
  rw [h.take_start, breaks]

theorem breaks_through (h : Fills cs front p start stop) :
    (cs.take stop).count '\n' = breaks front + p.newlines := by
  rw [h.take_stop, List.count_append, breaks, newlines]

end Fills

end Piece

namespace Scan
open Piece

/-- The token with the index `k` is spelled from `start` up to `stop`. -/
def SpelledAt (source : String) (k : Nat) (t : Token) (start stop : Nat) : Prop :=
  ∃ front p, Fills source.toList front p start stop ∧ (front.filter bearsToken).length = k ∧
    Spells p t

/-- The error with the index `k` concerns the piece from `start` up to `stop`. -/
def FlawedAt (source : String) (k : Nat) (p : Piece) (start stop : Nat) : Prop :=
  ∃ front, Fills source.toList front p start stop ∧ (front.filterMap flaw?).length = k

theorem token_line {source : String} {k : Nat} {t : Token} (h : (words source)[k]? = some t) :
    ∃ start stop, SpelledAt source k t start stop ∧
      (source.toList.take stop).drop start = t.lexeme.toList ∧
      t.line = 1 + (source.toList.take stop).count '\n' ∧
      (t.kind ≠ .string → t.line = 1 + (source.toList.take start).count '\n') := by
  obtain ⟨front, p, back, rest, hps, hp, hspells, hline, hindex⟩ := exists_spelled_of_getElem? h
  obtain ⟨start, stop, hfills⟩ := fills_of_pieces hps
  refine ⟨start, stop, ⟨front, p, hfills, hindex, hspells⟩, ?_, ?_, ?_⟩
  · rw [hfills.between, hspells.1, String.toList_ofList]
  · rw [hline, hfills.breaks_through, Nat.add_assoc]
  · intro hkind
    rw [hline, hfills.breaks_before, hspells.newlines_eq_zero hp hkind, Nat.add_zero]

theorem exists_flawed_of_getElem? {cs : List Char} {line k : Nat} {e : LexicalError}
    (h : (errorsFrom line (pieces cs))[k]? = some e) :
    ∃ front p back, pieces cs = front ++ p :: back ∧
      p.error? (line + breaks front + p.newlines) = some e ∧
      (front.filterMap flaw?).length = k := by
  rw [errorsFrom_eq_gather] at h
  obtain ⟨front, p, back, hps, herror, hlength⟩ := exists_piece_of_gather h
  rw [← errorsFrom_eq_gather] at hlength
  refine ⟨front, p, back, hps, herror, ?_⟩
  rw [← errorsFrom_flaws line, List.length_map, hlength]

/-- A stray character is no line break, and a string that is never closed reaches
over all that are left. -/
theorem error_line {source : String} {k : Nat} {e : LexicalError}
    (h : (ofText source).errors[k]? = some e) :
    ∃ p start stop, FlawedAt source k p start stop ∧
      ((∃ c, p = stray c ∧ source.toList[start]? = some c ∧
          e = ⟨.unexpectedCharacter, 1 + (source.toList.take start).count '\n'⟩) ∨
        ∃ body, p = openString body ∧
          e = ⟨.unterminatedString, 1 + source.toList.count '\n'⟩) := by
  obtain ⟨front, p, back, hps, herror, hindex⟩ := exists_flawed_of_getElem? h
  obtain ⟨start, stop, hfills⟩ := fills_of_pieces hps
  obtain ⟨rest, hcs, hp⟩ := hfills.exists_rest
  refine ⟨p, start, stop, ⟨front, hfills, hindex⟩, ?_⟩
  cases p with
  | stray c =>
      refine .inl ⟨c, rfl, ?_, ?_⟩
      · rw [hcs, hfills.starts, List.getElem?_append_right (Nat.le_refl _), Nat.sub_self]
        rfl
      · rw [hfills.breaks_before, ← Option.some.inj herror, hp.newlines_eq_zero rfl]
        rfl
  | openString body =>
      refine .inr ⟨body, rfl, ?_⟩
      have hall : source.toList.count '\n' = breaks front + (openString body).newlines := by
        rw [hcs, hp.2, List.append_nil, List.count_append, breaks, newlines]
      rw [hall, ← Option.some.inj herror, Nat.add_assoc]
  | _ => cases herror

theorem line_of_mem {line : Nat} {ps : List Piece} {t : Token} (h : t ∈ wordsFrom line ps) :
    line ≤ t.line ∧ t.line ≤ line + breaks ps := by
  rw [wordsFrom_eq_gather] at h
  obtain ⟨k, hk⟩ := List.getElem?_of_mem h
  obtain ⟨front, p, back, rfl, htoken, _⟩ := exists_piece_of_gather hk
  have hline := token?_line htoken
  have hbreaks : breaks (front ++ p :: back) = breaks front + (p.newlines + breaks back) := by
    rw [← breaks_cons, breaks, List.flatMap_append, List.count_append, breaks, breaks]
  omega

theorem wordsFrom_ordered (line : Nat) (ps : List Piece) :
    (wordsFrom line ps).Pairwise fun t u => t.line ≤ u.line := by
  induction ps generalizing line with
  | nil => exact .nil
  | cons p ps ih =>
      rw [wordsFrom]
      cases htoken : p.token? (line + p.newlines) with
      | none => exact ih _
      | some t =>
          refine List.pairwise_cons.mpr ⟨?_, ih _⟩
          intro u hu
          rw [token?_line htoken]
          exact (line_of_mem hu).1

theorem tokens_ordered (source : String) :
    (ofText source).tokens.Pairwise fun t u => t.line ≤ u.line := by
  rw [tokens_ofText]
  refine List.pairwise_append.mpr ⟨wordsFrom_ordered 1 _, List.pairwise_singleton _ _, ?_⟩
  intro t ht u hu
  have hlast := (line_of_mem ht).2
  rw [breaks_pieces] at hlast
  rw [List.mem_singleton.mp hu]
  exact hlast

theorem report_text (e : LexicalError) :
    e.report.text = "[line " ++ decimalText e.line ++ ("] Error: " ++ e.flaw.message) := by
  simp [LexicalError.report, Report.text, String.append_assoc]

/-- All lines that a scan gives are counted off its text. -/
theorem lines_counted_off (source : String) :
    (∀ k t, (ofText source).tokens[k]? = some t → t.kind ≠ .eof →
      ∃ start stop, SpelledAt source k t start stop ∧
        (source.toList.take stop).drop start = t.lexeme.toList ∧
        t.line = 1 + (source.toList.take stop).count '\n' ∧
        (t.kind ≠ .string → t.line = 1 + (source.toList.take start).count '\n')) ∧
      (∃ ts, (ofText source).tokens = ts ++ [Token.endOf (1 + source.toList.count '\n')] ∧
        ∀ t ∈ ts, t.kind ≠ .eof) ∧
      (∀ k m, (Reporter.fresh.scan source).reporter.messages[k]? = some m →
        ∃ p start stop, FlawedAt source k p start stop ∧
          ((∃ c, p = stray c ∧ source.toList[start]? = some c ∧
              m = "[line " ++ decimalText (1 + (source.toList.take start).count '\n' : Nat) ++
                "] Error: Unexpected character.") ∨
            ∃ body, p = openString body ∧
              m = "[line " ++ decimalText (1 + source.toList.count '\n' : Nat) ++
                "] Error: Unterminated string.")) ∧
      ((ofText source).tokens.Pairwise fun t u => t.line ≤ u.line) ∧
      ∀ t ∈ (ofText source).tokens, 1 ≤ t.line := by
  refine ⟨?_, ?_, ?_, tokens_ordered source, one_le_line⟩
  · intro k t hk hkind
    rw [tokens_ofText] at hk
    rcases Nat.lt_or_ge k (words source).length with hlt | hge
    · rw [List.getElem?_append_left hlt] at hk
      exact token_line hk
    · rw [List.getElem?_append_right hge] at hk
      rw [List.mem_singleton.mp (List.mem_of_getElem? hk)] at hkind
      exact absurd rfl hkind
  · exact ⟨words source, tokens_ofText source, fun t ht => kind_ne_eof_of_mem ht⟩
  · intro k m hk
    have hmessages : (Reporter.fresh.scan source).reporter.messages =
        (ofText source).errors.map fun e => e.report.text := Reporter.messages_scan .fresh source
    rw [hmessages, List.getElem?_map] at hk
    obtain ⟨e, he, rfl⟩ := Option.map_eq_some_iff.mp hk
    obtain ⟨p, start, stop, hflawed, hwhat⟩ := error_line he
    refine ⟨p, start, stop, hflawed, ?_⟩
    rcases hwhat with ⟨c, hc, hat, rfl⟩ | ⟨body, hbody, rfl⟩
    · exact .inl ⟨c, hc, hat, report_text _⟩
    · exact .inr ⟨body, hbody, report_text _⟩

/-- A string over two lines, a stray character, and a string that is never closed. -/
def openString : String := "\"a\nb\" @\nx \"c\n"

/-- A string that goes over two lines, a stray character behind it, and a string
that is never closed and ends in a line break. -/
theorem lines_counted_off_open_string :
    (ofText openString).tokens[0]? = some ⟨.string, "\"a\nb\"", .string "a\nb", 2⟩ ∧
      (∃ start stop, SpelledAt openString 0
          ⟨.string, "\"a\nb\"", .string "a\nb", 2⟩ start stop ∧
        2 = 1 + (openString.toList.take stop).count '\n') ∧
      (Reporter.fresh.scan openString).reporter.messages[1]? =
        some "[line 4] Error: Unterminated string." ∧
      ∃ p start stop, FlawedAt openString 1 p start stop := by
  have htoken : (ofText openString).tokens[0]? =
      some ⟨.string, "\"a\nb\"", .string "a\nb", 2⟩ := by decide +kernel
  have hmessage : (Reporter.fresh.scan openString).reporter.messages[1]? =
      some "[line 4] Error: Unterminated string." := by decide +kernel
  obtain ⟨htokens, _, hmessages, _⟩ := lines_counted_off openString
  obtain ⟨start, stop, hspelled, _, hline, _⟩ := htokens 0 _ htoken (by decide)
  obtain ⟨p, start', stop', hflawed, _⟩ := hmessages 1 _ hmessage
  exact ⟨htoken, ⟨start, stop, hspelled, hline⟩, hmessage, p, start', stop', hflawed⟩

end Scan

end Lox

import Lox.Proofs.Lines

/-!
# Pieces kept apart

Most pieces ask of the text behind them only that it does not make them longer,
and a blank or a line break makes no piece longer. Such a piece still stands if the
text behind it is exchanged for one that goes on in the same way up to a blank, a
line break or its end. The words of a text can therefore be written down with
single spaces between them, and are read again as they were.
-/
namespace Lox

namespace Piece

/-- Blanks and line breaks. -/
def Gap (c : Char) : Prop := c ∈ [' ', '\r', '\t', '\n']

instance : DecidablePred Gap := fun c => inferInstanceAs (Decidable (c ∈ [' ', '\r', '\t', '\n']))

theorem Gap.extends_nothing {c : Char} (h : Gap c) : ¬ Digit c ∧ ¬ Letter c := by
  have hall : [' ', '\r', '\t', '\n'].all (fun d => !d.isDigit && !beginsWord d) = true := by
    decide
  have hc := List.all_eq_true.mp hall c h
  rw [Bool.and_eq_true, Bool.not_eq_true', Bool.not_eq_true'] at hc
  exact ⟨(eq_false_iff isDigit_iff c).mp hc.1, (eq_false_iff beginsWord_iff c).mp hc.2⟩

/-- The text `new` goes on like `old` until it has a gap or ends. -/
inductive BreaksOff : List Char → List Char → Prop
  | gap {old new : List Char} : (∀ c ∈ new.head?, Gap c) → BreaksOff old new
  | next (c : Char) {old new : List Char} : BreaksOff old new → BreaksOff (c :: old) (c :: new)

theorem breaksOff_of_gap {c : Char} (h : Gap c) (old cs : List Char) :
    BreaksOff old (c :: cs) := by
  apply BreaksOff.gap
  intro d hd
  obtain rfl : c = d := by simpa using hd
  exact h

theorem breaksOff_append {c : Char} (h : Gap c) (old cs : List Char) :
    BreaksOff old (old ++ c :: cs) := by
  induction old with
  | nil => exact breaksOff_of_gap h [] cs
  | cons d old ih => exact .next d ih

theorem BreaksOff.head {old new : List Char} (h : BreaksOff old new) {P : Char → Prop}
    (hgap : ∀ c, Gap c → P c) (hold : ∀ c ∈ old.head?, P c) : ∀ c ∈ new.head?, P c := by
  intro c hc
  cases h with
  | gap hnew => exact hgap c (hnew c hc)
  | next d _ => exact hold c hc

theorem BreaksOff.head_ne {old new : List Char} (h : BreaksOff old new) {c : Char}
    (hgap : ¬ Gap c) (hold : old.head? ≠ some c) : new.head? ≠ some c := by
  intro hnew
  have hne : ∀ d, Gap d → d ≠ c := by
    rintro d hd rfl
    exact hgap hd
  have hother : ∀ d ∈ old.head?, d ≠ c := by
    rintro d hd rfl
    exact hold hd
  exact h.head hne hother c hnew rfl

/-- Behind a number, a point counts together with the character that follows it. -/
theorem BreaksOff.behind_point {old new : List Char} (h : BreaksOff old new)
    (hold : ∀ d more, old = '.' :: d :: more → ¬ Digit d) :
    ∀ d more, new = '.' :: d :: more → ¬ Digit d := by
  rintro d more rfl
  cases h with
  | gap hnew => exact absurd (hnew '.' rfl) (by decide)
  | next _ hmore =>
      cases hmore with
      | gap hnew => exact (hnew d rfl).extends_nothing.1
      | next _ _ => exact hold d _ rfl

/-- The pieces that have to reach a certain place: the end of the line or of the
text. -/
def reachesEnd : Piece → Bool
  | comment _ | openString _ => true
  | _ => false

/-- All other pieces allow for any text behind them that does not make them longer. -/
theorem Stands.of_breaksOff {p : Piece} {old new : List Char} (h : Stands p old)
    (hnew : BreaksOff old new) (hp : p.reachesEnd = false) : Stands p new := by
  cases p with
  | blank c => exact h
  | newline => exact h
  | comment body => cases hp
  | string body => exact h
  | openString body => cases hp
  | number whole fraction =>
      obtain ⟨hne, hdigits, hend, hpoint⟩ := h
      refine ⟨hne, hdigits, hnew.head (fun c hc => hc.extends_nothing.1) hend, ?_⟩
      intro hfraction
      exact hnew.behind_point (hpoint hfraction)
  | word letters =>
      refine ⟨h.1, hnew.head (fun c hc => ?_) h.2⟩
      exact not_or.mpr ⟨hc.extends_nothing.2, hc.extends_nothing.1⟩
  | symbol spelling kind =>
      rcases h with h | ⟨h, hne⟩ | ⟨h, hne⟩ | h
      · exact .inl h
      · exact .inr (.inl ⟨h, hnew.head_ne (by decide) hne⟩)
      · exact .inr (.inr (.inl ⟨h, hnew.head_ne (by decide) hne⟩))
      · exact .inr (.inr (.inr h))
  | stray c => exact h

theorem reachesEnd_of_bearsToken {p : Piece} (h : p.bearsToken = true) :
    p.reachesEnd = false := by
  cases p <;> first | rfl | cases h

/-- Some pieces with a space behind each. -/
def spaced (ps : List Piece) : List Piece := ps.flatMap fun p => [p, blank ' ']

theorem spaced_cons (p : Piece) (ps : List Piece) :
    spaced (p :: ps) = p :: blank ' ' :: spaced ps := rfl

/-- Pieces with a token keep their places when spaces are put between them. -/
theorem decomposes_spaced {ps : List Piece} (hwords : ∀ p ∈ ps, p.bearsToken = true)
    (hstand : ∀ p ∈ ps, ∃ rest, Stands p rest) :
    Decomposes ((spaced ps).flatMap text) (spaced ps) := by
  induction ps with
  | nil => exact .nil
  | cons p ps ih =>
      obtain ⟨rest, hp⟩ := hstand p (by simp)
      have hfree := reachesEnd_of_bearsToken (hwords p (by simp))
      have hbehind := ih (fun q hq => hwords q (by simp [hq])) fun q hq => hstand q (by simp [hq])
      have hgap : BreaksOff rest (' ' :: (spaced ps).flatMap text) :=
        breaksOff_of_gap (by decide) _ _
      rw [spaced_cons, List.flatMap_cons, List.flatMap_cons]
      exact .cons (hp.of_breaksOff hgap hfree) (.cons (p := blank ' ') (.inl rfl) hbehind)

end Piece

/-- Tokens that differ in nothing but their line. -/
def Token.SameWord (t u : Token) : Prop :=
  t.kind = u.kind ∧ t.lexeme = u.lexeme ∧ t.literal = u.literal

namespace Scan
open Piece

/-- The lexemes of the tokens of a text, with single spaces between them. -/
def respaced (source : String) : String :=
  " ".intercalate ((ofText source).tokens.map Token.lexeme)

theorem lexemes_wordsFrom (line : Nat) (ps : List Piece) :
    (wordsFrom line ps).map Token.lexeme =
      (ps.filter bearsToken).map fun p => String.ofList p.text := by
  induction ps generalizing line with
  | nil => rfl
  | cons p ps ih =>
      rw [wordsFrom, List.map_append, ih, List.filter_cons]
      cases p <;> rfl

/-- The end token has an empty lexeme, so a space follows every word. -/
theorem intercalate_texts (ps : List Piece) :
    [' '].intercalate (ps.map text ++ [[]]) = (spaced ps).flatMap text := by
  induction ps with
  | nil => rfl
  | cons p ps ih =>
      rw [List.map_cons, List.cons_append, List.intercalate_cons_of_ne_nil (by simp), ih,
        spaced_cons, List.flatMap_cons, List.flatMap_cons, List.append_assoc]
      rfl

theorem toList_respaced (source : String) : (respaced source).toList =
    (spaced ((pieces source.toList).filter bearsToken)).flatMap text := by
  rw [respaced, String.toList_intercalate, tokens_ofText, List.map_append, words,
    lexemes_wordsFrom, List.map_append, List.map_map, ← intercalate_texts]
  congr 2
  apply List.map_congr_left
  intro p _
  exact String.toList_ofList

theorem pieces_respaced (source : String) : pieces (respaced source).toList =
    spaced ((pieces source.toList).filter bearsToken) := by
  rw [toList_respaced]
  symm
  apply Decomposes.eq_pieces
  apply decomposes_spaced
  · intro p hp
    exact (List.mem_filter.mp hp).2
  · intro p hp
    exact (pieces_decomposes source.toList).stands_of_mem (List.mem_filter.mp hp).1

theorem token?_sameWord (p : Piece) (line line' : Nat) :
    List.Forall₂ Token.SameWord (p.token? line).toList (p.token? line').toList := by
  cases p <;> first | exact .nil | exact .cons ⟨rfl, rfl, rfl⟩ .nil

theorem wordsFrom_spaced (line line' : Nat) (ps : List Piece) :
    List.Forall₂ Token.SameWord (wordsFrom line ps)
      (wordsFrom line' (spaced (ps.filter bearsToken))) := by
  induction ps generalizing line line' with
  | nil => exact .nil
  | cons p ps ih =>
      rw [wordsFrom]
      cases hb : p.bearsToken with
      | false =>
          rw [token?_eq_none hb, List.filter_cons_of_neg (by simp [hb])]
          exact ih _ _
      | true =>
          rw [List.filter_cons_of_pos hb, spaced_cons, wordsFrom]
          exact List.rel_append (token?_sameWord p _ _) (ih _ _)

theorem errorsFrom_spaced {ps : List Piece} (h : ∀ p ∈ ps, p.bearsToken = true) (line : Nat) :
    errorsFrom line (spaced ps) = [] := by
  induction ps generalizing line with
  | nil => rfl
  | cons p ps ih =>
      have hp : p.error? (line + p.newlines) = none := by
        have hbears := h p (by simp)
        cases p <;> first | rfl | cases hbears
      rw [spaced_cons, errorsFrom, hp]
      exact ih (fun q hq => h q (by simp [hq])) _

theorem tokens_respaced (source : String) :
    List.Forall₂ Token.SameWord (ofText source).tokens (ofText (respaced source)).tokens := by
  rw [tokens_ofText, tokens_ofText, words, words, pieces_respaced]
  exact List.rel_append (wordsFrom_spaced 1 1 _) (.cons ⟨rfl, rfl, rfl⟩ .nil)

/-- The lexemes of a text, written with single spaces between them, are a text
without errors of the same words. To do so once more changes nothing. -/
theorem respaced_reads_back (source : String) :
    (ofText (respaced source)).errors = [] ∧
      List.Forall₂ (fun t u => t.kind = u.kind ∧ t.lexeme = u.lexeme ∧ t.literal = u.literal)
        (ofText source).tokens (ofText (respaced source)).tokens ∧
      respaced (respaced source) = respaced source := by
  have htokens := tokens_respaced source
  refine ⟨?_, htokens, ?_⟩
  · change errorsFrom 1 (pieces (respaced source).toList) = []
    rw [pieces_respaced]
    exact errorsFrom_spaced (fun p hp => (List.mem_filter.mp hp).2) 1
  · have hlexemes : (ofText source).tokens.map Token.lexeme =
        (ofText (respaced source)).tokens.map Token.lexeme := by
      rw [← List.forall₂_eq_eq_eq, List.forall₂_map_left_iff, List.forall₂_map_right_iff]
      exact htokens.imp fun t u h => h.2.1
    rw [respaced, ← hlexemes, respaced]

end Scan

end Lox

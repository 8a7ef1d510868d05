import Lox.Proofs.Execution
import Lox.Proofs.Separation

/-!
# Line ends of two characters

Let every line feed of a text follow a carriage return. A carriage return is a
blank, so it ends words, numbers and symbols just as the line feed behind it does,
and it is itself passed over, between pieces as well as at the end of a comment.
Only strings keep it. The same tokens are found on the same lines, and the same
errors.
-/
namespace Lox

namespace Text.Newline

/-- A text with a carriage return in front of every line feed. -/
def paired (cs : List Char) : List Char :=
  cs.flatMap fun c => if c = '\n' then ['\r', '\n'] else [c]

theorem paired_newline (cs : List Char) :
    paired ('\n' :: cs) = '\r' :: '\n' :: paired cs := rfl

theorem paired_cons_of_ne {c : Char} (h : c ≠ '\n') (cs : List Char) :
    paired (c :: cs) = c :: paired cs := by
  rw [paired, List.flatMap_cons, if_neg h]
  rfl

theorem paired_append (cs ds : List Char) :
    paired (cs ++ ds) = paired cs ++ paired ds :=
  List.flatMap_append

theorem paired_of_not_mem {cs : List Char} (h : '\n' ∉ cs) : paired cs = cs := by
  induction cs with
  | nil => rfl
  | cons c cs ih =>
      rw [List.mem_cons, not_or] at h
      rw [paired_cons_of_ne (Ne.symm h.1), ih h.2]

theorem count_paired (cs : List Char) : (paired cs).count '\n' = cs.count '\n' := by
  induction cs with
  | nil => rfl
  | cons c cs ih =>
      by_cases hc : c = '\n'
      · subst hc
        rw [paired_newline, List.count_cons_of_ne (by decide), List.count_cons_self,
          List.count_cons_self, ih]
      · rw [paired_cons_of_ne hc, List.count_cons_of_ne hc, List.count_cons_of_ne hc, ih]

theorem quote_not_mem_paired {cs : List Char} (h : '"' ∉ cs) : '"' ∉ paired cs := by
  intro hmem
  obtain ⟨c, hc, hquote⟩ := List.mem_flatMap.mp hmem
  split at hquote
  · exact absurd hquote (by decide)
  · rw [List.mem_singleton.mp hquote] at h
    exact h hc

/-- The same for a string. -/
def pairedText (s : String) : String := String.ofList (paired s.toList)

end Text.Newline

open Text.Newline

/-- Carriage returns in a value that is a string. -/
def Value.withReturns : Value → Value
  | .string s => .string (pairedText s)
  | v => v

/-- Carriage returns in the lexeme and the literal of a string, and nowhere else. -/
def Token.withReturns (t : Token) : Token :=
  if t.kind = .string then
    { t with lexeme := pairedText t.lexeme, literal := t.literal.withReturns }
  else t

theorem Token.withReturns_of_ne {t : Token} (h : t.kind ≠ .string) : t.withReturns = t :=
  if_neg h

namespace Piece

/-- A text has its first carriage return where the other has its first line feed. -/
theorem breaksOff_paired (cs : List Char) : BreaksOff cs (paired cs) := by
  induction cs with
  | nil =>
      apply BreaksOff.gap
      intro c hc
      cases hc
  | cons c cs ih =>
      by_cases hc : c = '\n'
      · subst hc
        exact breaksOff_of_gap (by decide) _ _
      · rw [paired_cons_of_ne hc]
        exact .next c ih

/-- Strings keep carriage returns, whether they are closed or not. -/
def withReturns : Piece → Piece
  | string body => string (paired body)
  | openString body => openString (paired body)
  | p => p

theorem Stands.withReturns_text {p : Piece} {rest : List Char} (h : Stands p rest)
    (hp : p ≠ newline) : p.withReturns.text = paired p.text := by
  cases p with
  | newline => exact absurd rfl hp
  | string body =>
      change '"' :: (paired body ++ ['"']) = paired ('"' :: (body ++ ['"']))
      rw [paired_cons_of_ne (by decide), paired_append]
      rfl
  | openString body => exact (paired_cons_of_ne (by decide) body).symm
  | _ => exact (paired_of_not_mem (h.newline_not_mem rfl)).symm

theorem Stands.newlines_withReturns {p : Piece} {rest : List Char} (h : Stands p rest)
    (hp : p ≠ newline) : p.withReturns.newlines = p.newlines := by
  rw [newlines, h.withReturns_text hp, count_paired, newlines]

/-- Of the pieces other than line breaks, only comments take a carriage return that
belongs to the line end behind them. -/
theorem Stands.withReturns {p : Piece} {rest : List Char} (h : Stands p rest)
    (hp : ∀ body, p ≠ comment body) : Stands p.withReturns (paired rest) := by
  cases p with
  | comment body => exact absurd rfl (hp body)
  | string body => exact quote_not_mem_paired h
  | openString body =>
      obtain ⟨hbody, rfl⟩ := h
      exact ⟨quote_not_mem_paired hbody, rfl⟩
  | _ => exact h.of_breaksOff (breaksOff_paired rest) rfl

theorem pieces_of_stands {p : Piece} {rest : List Char} (h : Stands p rest) :
    pieces (p.text ++ rest) = p :: pieces rest :=
  (Decomposes.cons h (pieces_decomposes rest)).eq_pieces.symm

/-- A piece that stands with its carriage returns is cut off with them. -/
theorem Stands.pieces_paired {p : Piece} {rest : List Char} (h : Stands p rest)
    (hp : p ≠ newline) (hpaired : Stands p.withReturns (paired rest)) :
    pieces (paired (p.text ++ rest)) = p.withReturns :: pieces (paired rest) := by
  rw [paired_append, ← h.withReturns_text hp]
  exact pieces_of_stands hpaired

theorem pieces_paired_newline (cs : List Char) :
    pieces (paired ('\n' :: cs)) = blank '\r' :: newline :: pieces (paired cs) := by
  have hblank : Stands (blank '\r') ('\n' :: paired cs) := .inr (.inl rfl)
  have hnewline : Stands newline (paired cs) := trivial
  rw [paired_newline]
  exact (pieces_of_stands hblank).trans (congrArg _ (pieces_of_stands hnewline))

theorem comment_return_stands {body : List Char} (h : '\n' ∉ body) (cs : List Char) :
    Stands (comment (body ++ ['\r'])) ('\n' :: cs) := by
  refine ⟨?_, .inr rfl⟩
  rw [List.mem_append, not_or]
  exact ⟨h, by decide⟩

/-- The carriage return of a line end belongs to the comment in front of it. -/
theorem pieces_paired_comment {body : List Char} (h : '\n' ∉ body) (cs : List Char) :
    pieces (paired ((comment body).text ++ '\n' :: cs)) =
      comment (body ++ ['\r']) :: newline :: pieces (paired cs) := by
  have hcomment := comment_return_stands h (paired cs)
  have hnewline : Stands newline (paired cs) := trivial
  have htext : paired ((comment body).text ++ '\n' :: cs) =
      (comment (body ++ ['\r'])).text ++ '\n' :: paired cs := by
    have hslashes : '\n' ∉ (comment body).text := by
      simp [text, h]
    rw [paired_append, paired_of_not_mem hslashes, paired_newline]
    simp [text]
  rw [htext]
  exact (pieces_of_stands hcomment).trans (congrArg _ (pieces_of_stands hnewline))

/-- Pieces that are neither tokens nor errors. -/
def isLayout : Piece → Bool
  | blank _ | newline | comment _ => true
  | _ => false

theorem token?_of_isLayout (p : Piece) (line : Nat) (h : p.isLayout = true) :
    p.token? line = none := by
  cases p <;> first | rfl | cases h

theorem error?_of_isLayout (p : Piece) (line : Nat) (h : p.isLayout = true) :
    p.error? line = none := by
  cases p <;> first | rfl | cases h

theorem error?_withReturns (p : Piece) (line : Nat) :
    p.withReturns.error? line = p.error? line := by
  cases p <;> rfl

/-- A token with carriage returns, from the piece with them. -/
theorem Stands.token?_withReturns {p : Piece} {rest : List Char} (h : Stands p rest)
    (line : Nat) : p.withReturns.token? line = (p.token? line).map Token.withReturns := by
  have hsame (hp : p.withReturns = p) (hkind : ∀ t, p.token? line = some t → t.kind ≠ .string) :
      p.withReturns.token? line = (p.token? line).map Token.withReturns := by
    rw [hp]
    cases ht : p.token? line with
    | none => rfl
    | some t => rw [Option.map_some, Token.withReturns_of_ne (hkind t ht)]
  have hstring : Kind.string ∈ notable := by decide
  cases p with
  | string body =>
      have htext := h.withReturns_text (by simp)
      have hlexeme : pairedText (String.ofList (string body).text) =
          String.ofList (string (paired body)).text := by
        rw [pairedText, String.toList_ofList, ← htext]
        rfl
      have hliteral : pairedText (String.ofList body) = String.ofList (paired body) := by
        rw [pairedText, String.toList_ofList]
      change some (Token.mk .string _ (.string _) line) =
        some (Token.mk .string (pairedText _) (.string (pairedText _)) line)
      rw [hlexeme, hliteral]
      rfl
  | word letters =>
      refine hsame rfl fun t ht => ?_
      exact (ne_of_mem_of_not_mem hstring (token?_eq_some h ht).2.1.kind_of_word).symm
  | symbol spelling kind =>
      refine hsame rfl fun t ht => ?_
      exact (ne_of_mem_of_not_mem hstring ((token?_eq_some h ht).2.1.kind_of_symbol h)).symm
  | number whole fraction =>
      refine hsame rfl fun t ht => ?_
      rw [(token?_eq_some h ht).2.1.2.1]
      decide
  | _ => rfl

theorem withReturns_of_isLayout {p : Piece} (h : p.isLayout = true) : p.withReturns = p := by
  cases p <;> first | rfl | cases h

end Piece

namespace Scan
open Piece

section Gather
variable {α : Type} {f : Nat → Piece → Option α}

theorem gather_layout (hf : ∀ p line, p.isLayout = true → f line p = none) {p : Piece}
    (hp : p.isLayout = true) (line : Nat) (ps : List Piece) :
    gather f line (p :: ps) = gather f (line + p.newlines) ps := by
  rw [gather, hf p _ hp]
  rfl

/-- What is found in a text with carriage returns, from the pieces of the text
without them. -/
theorem gather_paired (hf : ∀ p line, p.isLayout = true → f line p = none) {cs : List Char}
    {ps : List Piece} (h : Decomposes cs ps) (line : Nat) :
    gather f line (pieces (paired cs)) = gather (fun l p => f l p.withReturns) line ps := by
  induction h generalizing line with
  | nil =>
      have hnil : pieces (paired []) = [] := Decomposes.nil.eq_pieces.symm
      rw [hnil]
      rfl
  | @cons p rest ps hp _ ih =>
      have hkept (hne : p ≠ newline) (hpaired : Stands p.withReturns (paired rest)) :
          gather f line (pieces (paired (p.text ++ rest))) =
            gather (fun l p => f l p.withReturns) line (p :: ps) := by
        rw [hp.pieces_paired hne hpaired, gather, gather, hp.newlines_withReturns hne, ih]
      have hf' (q : Piece) (l : Nat) (hq : q.isLayout = true) : f l q.withReturns = none := by
        rw [withReturns_of_isLayout hq]
        exact hf q l hq
      cases p with
      | newline =>
          change gather f line (pieces (paired ('\n' :: rest))) = _
          rw [pieces_paired_newline, gather_layout hf rfl, gather_layout hf rfl,
            gather_layout hf' rfl, ← ih]
          rfl
      | comment body =>
          rcases hp.2 with rfl | hhead
          · exact hkept (by simp) hp
          · -- Taken alone, the line end would begin with a blank. Neither that blank
            -- nor the longer comment gives anything or moves the line.
            obtain ⟨more, rfl⟩ := List.head?_eq_some_iff.mp hhead
            rw [pieces_paired_comment hp.1, gather_layout hf rfl, gather_layout hf rfl,
              gather_layout hf' rfl, ← ih, pieces_paired_newline, gather_layout hf rfl,
              gather_layout hf rfl, hp.newlines_eq_zero rfl,
              (comment_return_stands hp.1 []).newlines_eq_zero rfl]
            rfl
      | _ => exact hkept (by simp) (hp.withReturns (by simp))

end Gather

theorem lines_pairedText (source : String) : lines (pairedText source) = lines source := by
  unfold lines
  rw [pairedText, String.toList_ofList, count_paired]

theorem words_pairedText (source : String) :
    words (pairedText source) = (words source).map Token.withReturns := by
  have hcut := pieces_decomposes source.toList
  unfold words
  rw [pairedText, String.toList_ofList, wordsFrom_eq_gather, wordsFrom_eq_gather,
    gather_paired token?_of_isLayout hcut]
  apply gather_map
  intro p hp line
  obtain ⟨rest, hstands⟩ := hcut.stands_of_mem hp
  exact hstands.token?_withReturns line

theorem errors_pairedText (source : String) :
    (ofText (pairedText source)).errors = (ofText source).errors := by
  change errorsFrom 1 (pieces (pairedText source).toList) = errorsFrom 1 (pieces source.toList)
  rw [pairedText, String.toList_ofList, errorsFrom_eq_gather, errorsFrom_eq_gather,
    gather_paired error?_of_isLayout (pieces_decomposes source.toList)]
  simp only [error?_withReturns]

/-- With a carriage return in front of every line feed, a text has the same tokens
on the same lines, strings apart, which have it too, and the same reports. -/
theorem scan_pairedText (source : String) :
    (ofText (pairedText source)).tokens = (ofText source).tokens.map Token.withReturns ∧
      (ofText (pairedText source)).errors = (ofText source).errors ∧
      ∀ r : Reporter, (r.scan (pairedText source)).reporter = (r.scan source).reporter := by
  have herrors := errors_pairedText source
  refine ⟨?_, herrors, ?_⟩
  · rw [tokens_ofText, tokens_ofText, words_pairedText, lines_pairedText, List.map_append]
    rfl
  · intro r
    change r.addSyntaxAll ((ofText (pairedText source)).errors.map LexicalError.report) =
      r.addSyntaxAll ((ofText source).errors.map LexicalError.report)
    rw [herrors]

end Scan

end Lox

import Lox.Proofs.Lines
import Lox.Proofs.Numerals

/-!
# Trees told apart by their texts

The text of an expression puts the operator in front of its operands and brackets around
them all. One spelling may be that of a unary and of a binary operator, and a negative
number begins like either. A text still has one reading: its words end at blanks and
brackets, and what stands behind an operand, a blank or a bracket, tells how many
operands an operator has.

Strings are left out. Any text can be that of a string, brackets included.
-/
namespace Lox

/-- Characters that stand together in a text, without blanks and brackets. -/
def Word (cs : List Char) : Prop := cs ≠ [] ∧ ∀ c ∈ cs, c ∉ [' ', '(', ')']

instance (cs : List Char) : Decidable (Word cs) :=
  have := List.decidableBAll (· ∉ [' ', '(', ')']) cs
  inferInstanceAs (Decidable (_ ∧ _))

/-- No word goes on into `rest`. -/
def EndsWord (rest : List Char) : Prop := ∀ c ∈ rest.head?, c = ' ' ∨ c = ')'

theorem endsWord_space (rest : List Char) : EndsWord (' ' :: rest) := by
  intro c hc
  exact .inl (Option.some.inj hc).symm

theorem endsWord_bracket (rest : List Char) : EndsWord (')' :: rest) := by
  intro c hc
  exact .inr (Option.some.inj hc).symm

/-- Where a word ends is seen from the text. -/
theorem Word.append_inj {w w' rest rest' : List Char} (hw : Word w) (hw' : Word w')
    (hrest : EndsWord rest) (hrest' : EndsWord rest') (h : w ++ rest = w' ++ rest') :
    w = w' ∧ rest = rest' := by
  let inside (c : Char) : Bool := decide (c ∉ [' ', '(', ')'])
  have hinside {cs : List Char} (hcs : Word cs) : ∀ c ∈ cs, inside c = true := by
    intro c hc
    exact decide_eq_true (hcs.2 c hc)
  have hends {cs : List Char} (hcs : EndsWord cs) : ∀ c ∈ cs.head?, inside c = false := by
    intro c hc
    rcases hcs c hc with rfl | rfl <;> rfl
  obtain ⟨htake, hdrop⟩ := Piece.span_append (hinside hw) (hends hrest)
  obtain ⟨htake', hdrop'⟩ := Piece.span_append (hinside hw') (hends hrest')
  rw [h] at htake hdrop
  exact ⟨htake.symm.trans htake', hdrop.symm.trans hdrop'⟩

/-- A bracket, a word and what stands behind it. -/
def bracketed (w body : List Char) : List Char := '(' :: (w ++ ' ' :: body)

theorem Word.append_ne_bracketed {w : List Char} (hw : Word w) (rest w' body : List Char) :
    w ++ rest ≠ bracketed w' body := by
  intro h
  obtain ⟨c, cs, rfl⟩ := List.exists_cons_of_ne_nil hw.1
  obtain rfl := (List.cons.inj h).1
  exact hw.2 '(' (by simp) (by simp)

theorem Word.bracketed_inj {w w' body body' : List Char} (hw : Word w) (hw' : Word w')
    (h : bracketed w body = bracketed w' body') : w = w' ∧ body = body' := by
  obtain ⟨hword, hrest⟩ := hw.append_inj hw' (endsWord_space body) (endsWord_space body')
    (List.cons.inj h).2
  exact ⟨hword, (List.cons.inj hrest).2⟩

namespace Value
open Decimal

theorem not_mem_of_isAlphanum {c : Char} (h : c.isAlphanum = true ∨ c ∈ ['.', '+', '-']) :
    c ∉ [' ', '(', ')'] := by
  intro hc
  simp only [List.mem_cons, List.not_mem_nil, or_false] at hc
  rcases hc with rfl | rfl | rfl
  · exact absurd h (by decide)
  · exact absurd h (by decide)
  · exact absurd h (by decide)

/-- The values with a word of their own. -/
def constants : List Value := [nil, bool true, bool false]

theorem number_or_constant {v : Value} (h : ∀ s, v ≠ string s) :
    (∃ x, v = number x) ∨ v ∈ constants := by
  cases v with
  | nil => exact .inr (by decide)
  | bool b => cases b <;> exact .inr (by decide)
  | number x => exact .inl ⟨x, rfl⟩
  | string s => exact absurd rfl (h s)

theorem word_text {v : Value} (h : ∀ s, v ≠ string s) : Word v.text.toList := by
  rcases number_or_constant h with ⟨x, rfl⟩ | hv
  · obtain ⟨c, cs, hx, _⟩ := Layout.exists_write x
    refine ⟨?_, fun c hc => not_mem_of_isAlphanum (Layout.isAlphanum_or_mem_write hc)⟩
    rw [text, hx]
    exact List.cons_ne_nil c cs
  · have hwords : ∀ v ∈ constants, Word v.text.toList := by decide
    exact hwords v hv

/-- The words of the constants are in lower case. -/
theorem text_number_ne (x : Float) {v : Value} (hv : v ∈ constants) :
    (number x).text ≠ v.text := by
  have hlower : ∀ v ∈ constants, v.text.toList.head?.any Char.isLower = true := by decide
  obtain ⟨c, cs, hx, hc⟩ := Layout.exists_write x
  have hv := hlower v hv
  intro h
  rw [← h, text, hx, List.head?_cons, Option.any_some, hc] at hv
  cases hv

theorem eq_of_text_eq {v w : Value} (hv : ∀ s, v ≠ string s) (hw : ∀ s, w ≠ string s)
    (h : v.text = w.text) : v = w := by
  rcases number_or_constant hv with ⟨x, rfl⟩ | hv
  · rcases number_or_constant hw with ⟨y, rfl⟩ | hw
    · rw [Layout.write_injective h]
    · exact absurd h (text_number_ne x hw)
  · rcases number_or_constant hw with ⟨y, rfl⟩ | hw
    · exact absurd h.symm (text_number_ne y hv)
    · have hconstants : ∀ v ∈ constants, ∀ w ∈ constants, v.text = w.text → v = w := by decide
      exact hconstants v hv w hw h

end Value

/-- The lexeme of a token, scanned by itself, is one symbol of the kind of the token. -/
def Token.Spelled (t : Token) : Prop :=
  ∃ spelling, Piece.pieces t.lexeme.toList = [.symbol spelling t.kind]

namespace Token.Spelled
open Piece

theorem kind_eq {t t' : Token} (h : t.Spelled) (h' : t'.Spelled)
    (hlexeme : t.lexeme.toList = t'.lexeme.toList) : t.kind = t'.kind := by
  obtain ⟨spelling, hs⟩ := h
  obtain ⟨spelling', hs'⟩ := h'
  rw [hlexeme, hs'] at hs
  injection hs with hsymbol
  injection hsymbol with _ hkind
  exact hkind.symm

theorem mem_symbols {t : Token} (h : t.Spelled) :
    (t.lexeme.toList, t.kind) ∈ pairs ++ leaders ++ [(['/'], Kind.slash)] ++ marks := by
  obtain ⟨spelling, hs⟩ := h
  have hdecomposes := pieces_decomposes t.lexeme.toList
  rw [hs] at hdecomposes
  generalize t.lexeme.toList = cs at hdecomposes
  cases hdecomposes with
  | @cons _ rest _ hstands hrest =>
      cases hrest
      rw [List.append_nil]
      exact hstands.mem_of_symbol

theorem length_le {t : Token} (h : t.Spelled) : t.lexeme.toList.length ≤ 2 := by
  have hlengths : ∀ x ∈ pairs ++ leaders ++ [(['/'], Kind.slash)] ++ marks,
      x.1.length ≤ 2 := by decide
  exact hlengths _ h.mem_symbols

theorem word {t : Token} (h : t.Spelled) (hleft : t.kind ≠ .leftParen)
    (hright : t.kind ≠ .rightParen) : Word t.lexeme.toList := by
  have hwords : ∀ x ∈ pairs ++ leaders ++ [(['/'], Kind.slash)] ++ marks,
      x.2 ≠ .leftParen → x.2 ≠ .rightParen → Word x.1 := by decide
  exact hwords _ h.mem_symbols hleft hright

theorem ne_group {t : Token} (h : t.Spelled) : t.lexeme.toList ≠ "group".toList := by
  intro hgroup
  have hlength := h.length_le
  rw [hgroup] at hlength
  exact absurd hlength (by decide)

end Token.Spelled

namespace Expr

/-- Trees without strings, whose operators are the unary and binary ones of the grammar,
each spelled in its own way. -/
def Legible : Expr → Prop
  | literal v => ∀ s, v ≠ .string s
  | grouping e => e.Legible
  | unary op e => op.kind ∈ [.bang, .minus] ∧ op.Spelled ∧ e.Legible
  | binary l op r => (∃ level : Level, op.kind ∈ level.operators) ∧ op.Spelled ∧
      l.Legible ∧ r.Legible

/-- Trees of one shape, with the same literals and with operators that differ at most in
their lines and in what they stand for. -/
inductive Matches : Expr → Expr → Prop
  | literal {v w : Value} : v.same w = true → Matches (literal v) (literal w)
  | grouping {e e' : Expr} : Matches e e' → Matches (grouping e) (grouping e')
  | unary {op op' : Token} {e e' : Expr} : op.kind = op'.kind → op.lexeme = op'.lexeme →
      Matches e e' → Matches (unary op e) (unary op' e')
  | binary {op op' : Token} {l l' r r' : Expr} : op.kind = op'.kind →
      op.lexeme = op'.lexeme → Matches l l' → Matches r r' →
      Matches (binary l op r) (binary l' op' r')

theorem Matches.text_eq {e e' : Expr} (h : Matches e e') : e.text = e'.text := by
  induction h with
  | literal hsame => rw [(Value.same_iff_eq _ _).mp hsame]
  | grouping _ ih => rw [text, text, ih]
  | unary _ hlexeme _ ih => rw [text, text, hlexeme, ih]
  | binary _ hlexeme _ _ ihl ihr => rw [text, text, hlexeme, ihl, ihr]

theorem word_group : Word "group".toList := by decide

theorem toList_grouping (e : Expr) (rest : List Char) : (grouping e).text.toList ++ rest =
    bracketed "group".toList (e.text.toList ++ ')' :: rest) := by
  simp [text, bracketed]

theorem toList_unary (op : Token) (e : Expr) (rest : List Char) :
    (unary op e).text.toList ++ rest =
      bracketed op.lexeme.toList (e.text.toList ++ ')' :: rest) := by
  simp [text, bracketed]

theorem toList_binary (op : Token) (l r : Expr) (rest : List Char) :
    (binary l op r).text.toList ++ rest =
      bracketed op.lexeme.toList (l.text.toList ++ ' ' :: (r.text.toList ++ ')' :: rest)) := by
  simp [text, bracketed]

theorem word_unary {op : Token} {e : Expr} (h : (unary op e).Legible) : Word op.lexeme.toList := by
  have hkinds : ∀ k ∈ [Kind.bang, .minus], k ≠ .leftParen ∧ k ≠ .rightParen := by decide
  obtain ⟨hleft, hright⟩ := hkinds op.kind h.1
  exact h.2.1.word hleft hright

theorem word_binary {op : Token} {l r : Expr} (h : (binary l op r).Legible) :
    Word op.lexeme.toList := by
  obtain ⟨level, hkind⟩ := h.1
  have hkinds : ∀ k ∈ level.operators, k ≠ .leftParen ∧ k ≠ .rightParen := by
    cases level <;> decide
  obtain ⟨hleft, hright⟩ := hkinds op.kind hkind
  exact h.2.1.word hleft hright

/-- Where the text of the tree `e` ends, and which tree it is, is seen from any longer
text. -/
def Readable (e : Expr) : Prop :=
  ∀ (e' : Expr) (rest rest' : List Char), e'.Legible → EndsWord rest → EndsWord rest' →
    e.text.toList ++ rest = e'.text.toList ++ rest' → Matches e e' ∧ rest = rest'

theorem readable_literal {v : Value} (hv : (literal v).Legible) : Readable (literal v) := by
  intro e' rest rest' he' hrest hrest' h
  have hword : Word v.text.toList := Value.word_text hv
  have hbracket (w body : List Char) := hword.append_ne_bracketed rest w body
  cases e' with
  | literal w =>
      obtain ⟨htext, hrests⟩ := hword.append_inj (Value.word_text he') hrest hrest' h
      have hvalues := Value.eq_of_text_eq hv he' (String.toList_inj.mp htext)
      exact ⟨.literal ((Value.same_iff_eq v w).mpr hvalues), hrests⟩
  | grouping e' =>
      rw [toList_grouping] at h
      exact absurd h (hbracket _ _)
  | unary op' e' =>
      rw [toList_unary] at h
      exact absurd h (hbracket _ _)
  | binary l' op' r' =>
      rw [toList_binary] at h
      exact absurd h (hbracket _ _)

theorem readable_grouping {e : Expr} (ih : Readable e) : Readable (grouping e) := by
  intro e' rest rest' he' hrest hrest' h
  rw [toList_grouping] at h
  cases e' with
  | literal w => exact absurd h.symm ((Value.word_text he').append_ne_bracketed _ _ _)
  | grouping e' =>
      rw [toList_grouping] at h
      obtain ⟨_, hbody⟩ := word_group.bracketed_inj word_group h
      obtain ⟨hmatches, hrests⟩ := ih e' _ _ he' (endsWord_bracket _) (endsWord_bracket _) hbody
      exact ⟨.grouping hmatches, (List.cons.inj hrests).2⟩
  | unary op' e' =>
      rw [toList_unary] at h
      obtain ⟨hgroup, _⟩ := word_group.bracketed_inj (word_unary he') h
      exact absurd hgroup.symm he'.2.1.ne_group
  | binary l' op' r' =>
      rw [toList_binary] at h
      obtain ⟨hgroup, _⟩ := word_group.bracketed_inj (word_binary he') h
      exact absurd hgroup.symm he'.2.1.ne_group

theorem readable_unary {op : Token} {e : Expr} (he : (unary op e).Legible) (ih : Readable e) :
    Readable (unary op e) := by
  intro e' rest rest' he' hrest hrest' h
  have hword := word_unary he
  rw [toList_unary] at h
  cases e' with
  | literal w => exact absurd h.symm ((Value.word_text he').append_ne_bracketed _ _ _)
  | grouping e' =>
      rw [toList_grouping] at h
      exact absurd (hword.bracketed_inj word_group h).1 he.2.1.ne_group
  | unary op' e' =>
      rw [toList_unary] at h
      obtain ⟨hlexeme, hbody⟩ := hword.bracketed_inj (word_unary he') h
      obtain ⟨hmatches, hrests⟩ :=
        ih e' _ _ he'.2.2 (endsWord_bracket _) (endsWord_bracket _) hbody
      have hkind := he.2.1.kind_eq he'.2.1 hlexeme
      exact ⟨.unary hkind (String.toList_inj.mp hlexeme) hmatches, (List.cons.inj hrests).2⟩
  | binary l' op' r' =>
      -- The operand is the left one of the other tree, but a bracket is no blank.
      rw [toList_binary] at h
      obtain ⟨_, hbody⟩ := hword.bracketed_inj (word_binary he') h
      obtain ⟨_, hrests⟩ := ih l' _ _ he'.2.2.1 (endsWord_bracket _) (endsWord_space _) hbody
      cases hrests

theorem readable_binary {op : Token} {l r : Expr} (he : (binary l op r).Legible)
    (ihl : Readable l) (ihr : Readable r) : Readable (binary l op r) := by
  intro e' rest rest' he' hrest hrest' h
  have hword := word_binary he
  rw [toList_binary] at h
  cases e' with
  | literal w => exact absurd h.symm ((Value.word_text he').append_ne_bracketed _ _ _)
  | grouping e' =>
      rw [toList_grouping] at h
      exact absurd (hword.bracketed_inj word_group h).1 he.2.1.ne_group
  | unary op' e' =>
      rw [toList_unary] at h
      obtain ⟨_, hbody⟩ := hword.bracketed_inj (word_unary he') h
      obtain ⟨_, hrests⟩ := ihl e' _ _ he'.2.2 (endsWord_space _) (endsWord_bracket _) hbody
      cases hrests
  | binary l' op' r' =>
      rw [toList_binary] at h
      obtain ⟨hlexeme, hbody⟩ := hword.bracketed_inj (word_binary he') h
      obtain ⟨hleft, hmore⟩ :=
        ihl l' _ _ he'.2.2.1 (endsWord_space _) (endsWord_space _) hbody
      obtain ⟨hright, hrests⟩ := ihr r' _ _ he'.2.2.2 (endsWord_bracket _) (endsWord_bracket _)
        (List.cons.inj hmore).2
      have hkind := he.2.1.kind_eq he'.2.1 hlexeme
      exact ⟨.binary hkind (String.toList_inj.mp hlexeme) hleft hright,
        (List.cons.inj hrests).2⟩

theorem Legible.readable {e : Expr} (h : e.Legible) : Readable e := by
  induction e with
  | literal v => exact readable_literal h
  | grouping e ih => exact readable_grouping (ih h)
  | unary op e ih => exact readable_unary h (ih h.2.2)
  | binary l op r ihl ihr => exact readable_binary h (ihl h.2.2.1) (ihr h.2.2.2)

theorem Legible.text_eq_iff {e e' : Expr} (h : e.Legible) (h' : e'.Legible) :
    e.text = e'.text ↔ Matches e e' := by
  refine ⟨fun htext => ?_, Matches.text_eq⟩
  have hends : EndsWord [] := by simp [EndsWord]
  exact (h.readable e' [] [] h' hends hends (by rw [htext])).1

end Expr

namespace Stmt

/-- Statements of one form, whose expressions match. -/
inductive Matches : Stmt → Stmt → Prop
  | expression {e e' : Expr} : e.Matches e' → Matches (expression e) (expression e')
  | print {e e' : Expr} : e.Matches e' → Matches (print e) (print e')

/-- The word behind the bracket of a statement. -/
def word : Stmt → String
  | expression _ => ";"
  | print _ => "print"

theorem toList_text (s : Stmt) :
    s.text.toList = bracketed s.word.toList (s.expr.text.toList ++ [')']) := by
  cases s <;> simp [text, word, expr, bracketed]

theorem word_word (s : Stmt) : Word s.word.toList := by
  have hwords : ∀ w ∈ [";", "print"], Word w.toList := by decide
  cases s with
  | expression e => exact hwords ";" (by simp)
  | print e => exact hwords "print" (by simp)

theorem matches_of_text_eq {s s' : Stmt} (hs : s.expr.Legible) (hs' : s'.expr.Legible)
    (h : s.text = s'.text) : Matches s s' := by
  rw [← String.toList_inj, toList_text, toList_text] at h
  obtain ⟨hword, hbody⟩ := s.word_word.bracketed_inj s'.word_word h
  obtain ⟨hmatches, _⟩ :=
    hs.readable _ _ _ hs' (endsWord_bracket []) (endsWord_bracket []) hbody
  have hne : ";".toList ≠ "print".toList := by decide
  cases s with
  | expression e =>
      cases s' with
      | expression e' => exact .expression hmatches
      | print e' => exact absurd hword hne
  | print e =>
      cases s' with
      | print e' => exact .print hmatches
      | expression e' => exact absurd hword.symm hne

theorem Matches.text_eq {s s' : Stmt} (h : Matches s s') : s.text = s'.text := by
  cases h with
  | expression he => rw [text, text, he.text_eq]
  | print he => rw [text, text, he.text_eq]

end Stmt

namespace Expr

/-- The text of a tree without strings tells the tree, up to the lines of operators and
what they stand for; and the text of a number tells the number. -/
theorem text_tells_tree :
    (∀ e e' : Expr, e.Legible → e'.Legible → (e.text = e'.text ↔ e.Matches e')) ∧
    (∀ s s' : Stmt, s.expr.Legible → s'.expr.Legible → (s.text = s'.text ↔ s.Matches s')) ∧
    ∀ x y : Float, (Value.number x).text = (Value.number y).text ↔
      (Value.number x).same (Value.number y) = true := by
  refine ⟨fun e e' he he' => he.text_eq_iff he', fun s s' hs hs' => ?_, fun x y => ?_⟩
  · exact ⟨Stmt.matches_of_text_eq hs hs', Stmt.Matches.text_eq⟩
  · rw [Value.same_iff_eq]
    refine ⟨fun h => ?_, congrArg Value.text⟩
    rw [Decimal.Layout.write_injective h]

/-- A negative number less a number under a sign, each operator on a line of its own. -/
def lessNegation (line line' : Nat) : Expr :=
  binary (literal (.number (-1))) ⟨.minus, "-", .nil, line⟩
    (unary ⟨.minus, "-", .nil, line'⟩ (literal (.number 1)))

/-- Two trees of the text `(- -1 (- 1))`, with their operators on different lines. The two
zeros have two texts. -/
theorem text_tells_tree_minus :
    (lessNegation 1 2).Legible ∧ (lessNegation 3 3).Legible ∧
      (lessNegation 1 2).text = "(- -1 (- 1))" ∧
      (lessNegation 1 2).Matches (lessNegation 3 3) ∧
      (Value.number 0).text ≠ (Value.number (-0)).text := by
  have hpieces : Piece.pieces "-".toList = [.symbol ['-'] .minus] := by decide +kernel
  have hminus (line : Nat) : Token.Spelled ⟨.minus, "-", .nil, line⟩ := ⟨['-'], hpieces⟩
  have hnumber (x : Float) : (literal (.number x)).Legible := by
    intro s hs
    cases hs
  have hlegible (line line' : Nat) : (lessNegation line line').Legible :=
    ⟨⟨.term, by simp [Level.operators]⟩, hminus line, hnumber (-1), by simp, hminus line',
      hnumber 1⟩
  obtain ⟨htree, _, htext⟩ := text_tells_tree
  refine ⟨hlegible 1 2, hlegible 3 3, by decide +kernel, ?_, fun h => ?_⟩
  · exact (htree _ _ (hlegible 1 2) (hlegible 3 3)).mp (by decide +kernel)
  · exact absurd ((htext 0 (-0)).mp h) (by decide +kernel)

end Expr

end Lox

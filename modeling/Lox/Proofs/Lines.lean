import Lox.Proofs.Acceptance
import Lox.Proofs.LongestMatch

/-!
# Words and their lines

The tokens of a scan are its words and one end token behind them. A word is
found again in the text: it is the token of one piece, and its line is counted
off the characters up to the end of that piece. Its lexeme and kind fix what it
stands for. The end token carries the number of lines of the text. Since no word
is an end token, the words are what is read as a program.
-/
namespace Lox

/-- What a lexeme of some kind stands for. -/
def Token.decode (kind : Kind) (lexeme : String) : Value :=
  match kind with
  | .string => .string (String.ofList lexeme.toList.tail.dropLast)
  | .number => .number ((Decimal.readFloat? lexeme).getD 0)
  | _ => .nil

namespace Piece

/-- The line breaks in some pieces. -/
def breaks (ps : List Piece) : Nat := (ps.flatMap text).count '\n'

theorem breaks_cons (p : Piece) (ps : List Piece) : breaks (p :: ps) = p.newlines + breaks ps := by
  unfold breaks newlines
  rw [List.flatMap_cons, List.count_append]

theorem breaks_pieces (cs : List Char) : breaks (pieces cs) = cs.count '\n' := by
  rw [breaks, pieces_text]

/-- A piece of a text stands there, behind the pieces in front of it. -/
theorem Decomposes.split {cs : List Char} {front back : List Piece} {p : Piece}
    (h : Decomposes cs (front ++ p :: back)) :
    ∃ rest, cs = front.flatMap text ++ (p.text ++ rest) ∧ Stands p rest := by
  induction front generalizing cs with
  | nil =>
      cases h with
      | @cons _ rest _ hp _ => exact ⟨rest, rfl, hp⟩
  | cons q front ih =>
      cases h with
      | @cons _ behind _ _ hbehind =>
          obtain ⟨rest, rfl, hp⟩ := ih hbehind
          exact ⟨rest, by rw [List.flatMap_cons, List.append_assoc], hp⟩

theorem Decomposes.stands_of_mem {cs : List Char} {ps : List Piece} (h : Decomposes cs ps)
    {p : Piece} (hp : p ∈ ps) : ∃ rest, Stands p rest := by
  obtain ⟨front, back, rfl⟩ := List.append_of_mem hp
  obtain ⟨rest, _, hstands⟩ := h.split
  exact ⟨rest, hstands⟩

/-- The kinds that neither a keyword nor a symbol has. -/
def notable : List Kind := [.string, .number, .eof]

theorem keyword_not_notable : ∀ x ∈ Kind.keywords, x.2 ∉ notable := by
  decide

theorem symbol_not_notable :
    ∀ x ∈ pairs ++ leaders ++ [(['/'], Kind.slash)] ++ marks, x.2 ∉ notable := by
  decide

theorem Spells.kind_of_word {letters : List Char} {t : Token} (h : Spells (word letters) t) :
    t.kind ∉ notable := by
  rcases h.2.2 with hkey | ⟨hid, _⟩
  · exact keyword_not_notable _ hkey
  · rw [hid]
    decide

theorem Stands.mem_of_symbol {spelling rest : List Char} {kind : Kind}
    (hp : Stands (symbol spelling kind) rest) :
    (spelling, kind) ∈ pairs ++ leaders ++ [(['/'], Kind.slash)] ++ marks := by
  simp only [List.mem_append, List.mem_singleton]
  rcases hp with hp | ⟨hp, _⟩ | ⟨hp, _⟩ | hp
  · exact .inl (.inl (.inl hp))
  · exact .inl (.inl (.inr hp))
  · exact .inl (.inr hp)
  · exact .inr hp

theorem Spells.kind_of_symbol {spelling rest : List Char} {kind : Kind} {t : Token}
    (hp : Stands (symbol spelling kind) rest) (h : Spells (symbol spelling kind) t) :
    t.kind ∉ notable := by
  rw [h.2.1]
  exact symbol_not_notable _ hp.mem_of_symbol

theorem Spells.kind_ne_eof {p : Piece} {rest : List Char} {t : Token} (hp : Stands p rest)
    (h : Spells p t) : t.kind ≠ .eof := by
  cases p with
  | string body =>
      rw [h.2.1]
      decide
  | number whole fraction =>
      rw [h.2.1]
      decide
  | word letters =>
      intro heof
      apply h.kind_of_word
      rw [heof]
      decide
  | symbol spelling kind =>
      intro heof
      apply h.kind_of_symbol hp
      rw [heof]
      decide
  | blank c => cases h.2
  | newline => cases h.2
  | comment body => cases h.2
  | openString body => cases h.2
  | stray c => cases h.2

theorem decode_of_not_notable {k : Kind} (h : k ∉ notable) (lexeme : String) :
    Token.decode k lexeme = .nil := by
  unfold Token.decode
  split
  · exact absurd (by decide) h
  · exact absurd (by decide) h
  · rfl

theorem Spells.literal_eq {p : Piece} {rest : List Char} {t : Token} (hp : Stands p rest)
    (h : Spells p t) : t.literal = Token.decode t.kind t.lexeme := by
  cases p with
  | string body =>
      obtain ⟨hlexeme, hkind, hliteral⟩ := h
      rw [hkind, hliteral, hlexeme, Token.decode]
      simp [text]
  | number whole fraction =>
      obtain ⟨_, hkind, x, hread, hliteral⟩ := h
      rw [hkind, hliteral, Token.decode, hread]
      rfl
  | word letters => rw [decode_of_not_notable h.kind_of_word, h.2.1]
  | symbol spelling kind => rw [decode_of_not_notable (h.kind_of_symbol hp), h.2.2]
  | blank c => cases h.2
  | newline => cases h.2
  | comment body => cases h.2
  | openString body => cases h.2
  | stray c => cases h.2

theorem newline_not_digit : ¬ Digit '\n' := by
  rw [← isDigit_iff]
  decide

theorem newline_not_letter : ¬ Letter '\n' := by
  rw [← beginsWord_iff]
  decide

theorem newline_not_mem_symbol :
    ∀ x ∈ pairs ++ leaders ++ [(['/'], Kind.slash)] ++ marks, '\n' ∉ x.1 := by
  decide

/-- The pieces that can hold line breaks. -/
def spansLines : Piece → Bool
  | newline | string _ | openString _ => true
  | _ => false

theorem Stands.newline_not_mem {p : Piece} {rest : List Char} (hp : Stands p rest)
    (h : p.spansLines = false) : '\n' ∉ p.text := by
  cases p with
  | blank c =>
      intro hmem
      rw [← List.mem_singleton.mp hmem] at hp
      rcases hp with hc | hc | hc <;> exact absurd hc (by decide)
  | comment body =>
      intro hmem
      simp only [text, List.mem_cons] at hmem
      rcases hmem with hc | hc | hbody
      · exact absurd hc (by decide)
      · exact absurd hc (by decide)
      · exact hp.1 hbody
  | number whole fraction =>
      obtain ⟨_, hdigits, _⟩ := hp
      intro hmem
      cases fraction with
      | nil => exact newline_not_digit (hdigits '\n' (List.mem_append_left [] hmem))
      | cons d fraction =>
          change '\n' ∈ whole ++ '.' :: d :: fraction at hmem
          rw [List.mem_append, List.mem_cons] at hmem
          rcases hmem with hmem | hmem | hmem
          · exact newline_not_digit (hdigits '\n' (List.mem_append_left _ hmem))
          · exact absurd hmem (by decide)
          · exact newline_not_digit (hdigits '\n' (List.mem_append_right _ hmem))
  | word letters =>
      obtain ⟨⟨c, cs, rfl, hc, hcs⟩, _⟩ := hp
      intro hmem
      rcases List.mem_cons.mp hmem with rfl | hmem
      · exact newline_not_letter hc
      · rcases hcs '\n' hmem with hletter | hdigit
        · exact newline_not_letter hletter
        · exact newline_not_digit hdigit
  | symbol spelling kind => exact newline_not_mem_symbol _ hp.mem_of_symbol
  | stray c =>
      obtain ⟨_, hc, _⟩ := (stands_stray_iff c rest).mp hp
      intro hmem
      exact hc (List.mem_singleton.mp hmem).symm
  | newline => cases h
  | string body => cases h
  | openString body => cases h

theorem Stands.newlines_eq_zero {p : Piece} {rest : List Char} (hp : Stands p rest)
    (h : p.spansLines = false) : p.newlines = 0 :=
  List.count_eq_zero.mpr (hp.newline_not_mem h)

/-- Among the pieces with a token, only strings reach over line breaks. -/
theorem Spells.newlines_eq_zero {p : Piece} {rest : List Char} {t : Token} (hp : Stands p rest)
    (h : Spells p t) (hkind : t.kind ≠ .string) : p.newlines = 0 := by
  apply hp.newlines_eq_zero
  cases p with
  | string body => exact absurd h.2.1 hkind
  | newline => cases h.2
  | openString body => cases h.2
  | _ => rfl

theorem token?_line {p : Piece} {line : Nat} {t : Token} (h : p.token? line = some t) :
    t.line = line := by
  cases p <;> cases h <;> rfl

theorem token?_eq_some {p : Piece} {rest : List Char} {line : Nat} {t : Token}
    (hp : Stands p rest) (h : p.token? line = some t) :
    p.bearsToken = true ∧ Spells p t ∧ t.line = line := by
  cases hb : p.bearsToken with
  | false =>
      rw [token?_eq_none hb] at h
      cases h
  | true =>
      obtain ⟨u, hu, hspell⟩ := token?_spells hp hb line
      rw [hu] at h
      cases h
      exact ⟨rfl, hspell, token?_line hu⟩

end Piece

namespace Scan
open Piece

/-- What `f` finds in some pieces, the first of which begins on `line`. It is told
the line on which a piece ends. -/
def gather {α : Type} (f : Nat → Piece → Option α) (line : Nat) : List Piece → List α
  | [] => []
  | p :: ps => (f (line + p.newlines) p).toList ++ gather f (line + p.newlines) ps

theorem gather_append {α : Type} (f : Nat → Piece → Option α) (line : Nat) (ps qs : List Piece) :
    gather f line (ps ++ qs) = gather f line ps ++ gather f (line + breaks ps) qs := by
  induction ps generalizing line with
  | nil => rfl
  | cons p ps ih =>
      rw [List.cons_append, gather, gather, ih, breaks_cons, Nat.add_assoc, List.append_assoc]

theorem gather_map {α β : Type} {f : Nat → Piece → Option α} {g : Nat → Piece → Option β}
    {e : α → β} {ps : List Piece} (h : ∀ p ∈ ps, ∀ line, g line p = (f line p).map e)
    (line : Nat) : gather g line ps = (gather f line ps).map e := by
  induction ps generalizing line with
  | nil => rfl
  | cons p ps ih =>
      have hps := ih (fun q hq => h q (List.mem_cons_of_mem p hq)) (line + p.newlines)
      rw [gather, gather, h p List.mem_cons_self, hps, List.map_append, Option.toList_map]

/-- Whatever is found belongs to a piece, and what is found in front of that piece
precedes it. -/
theorem exists_piece_of_gather {α : Type} {f : Nat → Piece → Option α} {line k : Nat}
    {ps : List Piece} {x : α} (h : (gather f line ps)[k]? = some x) :
    ∃ front p back, ps = front ++ p :: back ∧
      f (line + breaks front + p.newlines) p = some x ∧ (gather f line front).length = k := by
  induction ps generalizing line k with
  | nil => cases h
  | cons p ps ih =>
      rw [gather] at h
      -- Behind `p`, the index is lowered by one if something is found in `p`.
      have hbehind {j : Nat} (hj : (gather f (line + p.newlines) ps)[j]? = some x) :
          ∃ front q back, p :: ps = front ++ q :: back ∧
            f (line + breaks front + q.newlines) q = some x ∧
            (gather f line front).length = (f (line + p.newlines) p).toList.length + j := by
        obtain ⟨front, q, back, rfl, hq, hlength⟩ := ih hj
        refine ⟨p :: front, q, back, rfl, ?_, ?_⟩
        · rwa [breaks_cons, ← Nat.add_assoc]
        · rw [gather, List.length_append, hlength]
      cases hp : f (line + p.newlines) p with
      | none =>
          rw [hp] at h hbehind
          rw [← Nat.zero_add k]
          exact hbehind h
      | some y =>
          rw [hp] at h hbehind
          cases k with
          | zero => exact ⟨[], p, ps, rfl, hp.trans h, rfl⟩
          | succ k =>
              rw [Nat.add_comm k 1]
              exact hbehind h

/-- The tokens of some pieces, without an end token. -/
def wordsFrom (line : Nat) : List Piece → List Token
  | [] => []
  | p :: ps => (p.token? (line + p.newlines)).toList ++ wordsFrom (line + p.newlines) ps

theorem wordsFrom_eq_gather (line : Nat) (ps : List Piece) :
    wordsFrom line ps = gather token? line ps := by
  induction ps generalizing line with
  | nil => rfl
  | cons p ps ih => rw [wordsFrom, gather, ih]

theorem errorsFrom_eq_gather (line : Nat) (ps : List Piece) :
    errorsFrom line ps = gather error? line ps := by
  induction ps generalizing line with
  | nil => rfl
  | cons p ps ih => rw [errorsFrom, gather, ih]

theorem tokensFrom_eq (line : Nat) (ps : List Piece) :
    tokensFrom line ps = wordsFrom line ps ++ [Token.endOf (line + breaks ps)] := by
  induction ps generalizing line with
  | nil => rfl
  | cons p ps ih => rw [tokensFrom, wordsFrom, ih, breaks_cons, Nat.add_assoc, List.append_assoc]

theorem length_wordsFrom (line : Nat) (ps : List Piece) :
    (wordsFrom line ps).length = (ps.filter bearsToken).length := by
  induction ps generalizing line with
  | nil => rfl
  | cons p ps ih =>
      rw [wordsFrom, List.length_append, ih, List.filter_cons]
      cases p <;> simp [token?, bearsToken, Nat.add_comm]

/-- Every word of a text is spelled by a piece that stands there. As many words
stand in front of it as there are pieces with a token in front of that piece. -/
theorem exists_spelled_of_getElem? {cs : List Char} {line k : Nat} {t : Token}
    (h : (wordsFrom line (pieces cs))[k]? = some t) :
    ∃ front p back rest, pieces cs = front ++ p :: back ∧ Stands p rest ∧ Spells p t ∧
      t.line = line + breaks front + p.newlines ∧ (front.filter bearsToken).length = k := by
  rw [wordsFrom_eq_gather] at h
  obtain ⟨front, p, back, hps, htoken, hlength⟩ := exists_piece_of_gather h
  rw [← wordsFrom_eq_gather, length_wordsFrom] at hlength
  have hcut := pieces_decomposes cs
  rw [hps] at hcut
  obtain ⟨rest, _, hp⟩ := hcut.split
  obtain ⟨_, hspells, hline⟩ := token?_eq_some hp htoken
  exact ⟨front, p, back, rest, hps, hp, hspells, hline, hlength⟩

theorem exists_spelled_of_mem {cs : List Char} {line : Nat} {t : Token}
    (h : t ∈ wordsFrom line (pieces cs)) : ∃ front p back rest, pieces cs = front ++ p :: back ∧
      Stands p rest ∧ Spells p t ∧ t.line = line + breaks front + p.newlines ∧
      (wordsFrom line (pieces cs))[(front.filter bearsToken).length]? = some t := by
  obtain ⟨k, hk⟩ := List.getElem?_of_mem h
  obtain ⟨front, p, back, rest, hps, hp, hspells, hline, rfl⟩ := exists_spelled_of_getElem? hk
  exact ⟨front, p, back, rest, hps, hp, hspells, hline, hk⟩

theorem kind_ne_eof_of_mem {cs : List Char} {line : Nat} {t : Token}
    (h : t ∈ wordsFrom line (pieces cs)) : t.kind ≠ .eof := by
  obtain ⟨_, _, _, _, _, hp, hspells, _⟩ := exists_spelled_of_mem h
  exact hspells.kind_ne_eof hp

/-- The words of a source text. -/
def words (source : String) : List Token := wordsFrom 1 (pieces source.toList)

theorem tokens_ofText (source : String) :
    (ofText source).tokens = words source ++ [Token.endOf (lines source)] := by
  have h := tokensFrom_eq 1 (pieces source.toList)
  rwa [breaks_pieces] at h

theorem literal_eq_decode {source : String} :
    ∀ t ∈ (ofText source).tokens, t.literal = Token.decode t.kind t.lexeme := by
  intro t ht
  rw [tokens_ofText] at ht
  rcases List.mem_append.mp ht with ht | ht
  · obtain ⟨_, _, _, _, _, hp, hspells, _⟩ := exists_spelled_of_mem ht
    exact hspells.literal_eq hp
  · rw [List.mem_singleton.mp ht]
    rfl

theorem one_le_line {source : String} : ∀ t ∈ (ofText source).tokens, 1 ≤ t.line := by
  intro t ht
  rw [tokens_ofText] at ht
  rcases List.mem_append.mp ht with ht | ht
  · obtain ⟨_, _, _, _, _, _, _, hline, _⟩ := exists_spelled_of_mem ht
    omega
  · rw [List.mem_singleton.mp ht]
    exact Nat.le_add_right 1 _

/-- The tokens of a scan can be read; they are read up to their own end token. -/
theorem ofTokens?_ofText (source : String) :
    TokenStream.ofTokens? (ofText source).tokens =
      some ⟨words source, Token.endOf (lines source)⟩ := by
  rw [tokens_ofText]
  apply TokenStream.ofTokens?_append_stop
  · intro t ht
    exact kind_ne_eof_of_mem ht
  · rfl

theorem stream_ofText (source : String) :
    (ofText source).stream = ⟨words source, Token.endOf (lines source)⟩ := by
  rw [stream, ofTokens?_ofText]
  rfl

end Scan

end Lox

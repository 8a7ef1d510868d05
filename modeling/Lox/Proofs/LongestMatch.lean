import Lox.Scan
import Mathlib.Data.List.Forall2
import Mathlib.Data.List.TakeWhile

/-!
# The cut of a source text

The classes of pieces, each with what may stand behind a piece of it, said
without the cutting itself. Every text is a row of such pieces in exactly one
way: the cut that is made, in which each piece is as long as its class allows.
What a scan gives back is then settled piece by piece.
-/
namespace Lox

namespace Piece

/-- The digits of numbers. -/
def Digit (c : Char) : Prop := '0' ≤ c ∧ c ≤ '9'

/-- The letters of words, the underscore among them. -/
def Letter (c : Char) : Prop := ('a' ≤ c ∧ c ≤ 'z') ∨ ('A' ≤ c ∧ c ≤ 'Z') ∨ c = '_'

def pairs : List (List Char × Kind) :=
  [(['!', '='], .bangEqual), (['=', '='], .equalEqual), (['<', '='], .lessEqual),
    (['>', '='], .greaterEqual)]

/-- Symbols that begin a longer one. -/
def leaders : List (List Char × Kind) :=
  [(['!'], .bang), (['='], .equal), (['<'], .less), (['>'], .greater)]

def marks : List (List Char × Kind) :=
  [(['('], .leftParen), ([')'], .rightParen), (['\x7b'], .leftBrace), (['\x7d'], .rightBrace),
    ([','], .comma), (['.'], .dot), (['-'], .minus), (['+'], .plus), ([';'], .semicolon),
    (['*'], .star)]

/-- The classes of pieces apart from stray characters, in front of `rest`. -/
def Regular : Piece → List Char → Prop
  | blank c, _ => c = ' ' ∨ c = '\r' ∨ c = '\t'
  | newline, _ => True
  | comment body, rest => '\n' ∉ body ∧ (rest = [] ∨ rest.head? = some '\n')
  | string body, _ => '"' ∉ body
  | openString body, rest => '"' ∉ body ∧ rest = []
  | number whole fraction, rest => whole ≠ [] ∧ (∀ c ∈ whole ++ fraction, Digit c) ∧
      (∀ c ∈ rest.head?, ¬ Digit c) ∧
      (fraction = [] → ∀ d more, rest = '.' :: d :: more → ¬ Digit d)
  | word letters, rest => (∃ c cs, letters = c :: cs ∧ Letter c ∧ ∀ d ∈ cs, Letter d ∨ Digit d) ∧
      ∀ c ∈ rest.head?, ¬ (Letter c ∨ Digit c)
  | symbol spelling kind, rest => (spelling, kind) ∈ pairs ∨
      ((spelling, kind) ∈ leaders ∧ rest.head? ≠ some '=') ∨
      ((spelling, kind) = (['/'], .slash) ∧ rest.head? ≠ some '/') ∨
      (spelling, kind) ∈ marks
  | stray _, _ => False

/-- A stray character is one with which no piece of another class begins. -/
def Stands : Piece → List Char → Prop
  | stray c, _ => ∀ p rest, Regular p rest → p.text.head? ≠ some c
  | p, rest => Regular p rest

/-- A text as a row of pieces. -/
inductive Decomposes : List Char → List Piece → Prop
  | nil : Decomposes [] []
  | cons {p : Piece} {rest : List Char} {ps : List Piece} : Stands p rest →
      Decomposes rest ps → Decomposes (p.text ++ rest) (p :: ps)

theorem isDigit_iff (c : Char) : c.isDigit = true ↔ Digit c := by
  simp [Char.isDigit, Digit, Char.le_def, UInt32.le_iff_toNat_le]

theorem beginsWord_iff (c : Char) : beginsWord c = true ↔ Letter c := by
  have hupper : c.isUpper = true ↔ 'A' ≤ c ∧ c ≤ 'Z' := decide_eq_true_iff
  have hlower : c.isLower = true ↔ 'a' ≤ c ∧ c ≤ 'z' :=
    Bool.and_eq_true_iff.trans (and_congr decide_eq_true_iff decide_eq_true_iff)
  change ((c.isUpper || c.isLower) || c == '_') = true ↔ Letter c
  rw [Bool.or_eq_true, Bool.or_eq_true, beq_iff_eq, hupper, hlower, or_assoc, or_left_comm, Letter]

theorem continuesWord_iff (c : Char) : continuesWord c = true ↔ Letter c ∨ Digit c := by
  rw [← beginsWord_iff, ← isDigit_iff]
  simp only [continuesWord, beginsWord, Char.isAlphanum, Bool.or_eq_true]
  rw [or_right_comm]

theorem isBlank_iff (c : Char) : isBlank c = true ↔ c = ' ' ∨ c = '\r' ∨ c = '\t' := by
  simp only [isBlank, Bool.or_eq_true, beq_iff_eq, or_assoc]

theorem eq_false_iff {test : Char → Bool} {P : Char → Prop} (h : ∀ c, test c = true ↔ P c)
    (c : Char) : test c = false ↔ ¬ P c := by
  rw [← h, Bool.not_eq_true]

theorem ne_of_test {test : Char → Bool} {c d : Char} (hc : test c = true) (hd : test d = false) :
    (c == d) = false := by
  rw [beq_eq_false_iff_ne]
  rintro rfl
  rw [hc] at hd
  cases hd

theorem Letter.not_digit {c : Char} (h : Letter c) : ¬ Digit c := by
  unfold Letter Digit at *
  simp only [Char.le_def, UInt32.le_iff_toNat_le] at *
  have h9 : '9'.val.toNat = 57 := rfl
  have ha : 'a'.val.toNat = 97 := rfl
  have hA : 'A'.val.toNat = 65 := rfl
  rcases h with h | h | rfl
  · omega
  · omega
  · decide

theorem cut_of_digit {c : Char} (h : c.isDigit = true) (cs : List Char) :
    cut c cs = cutNumber c cs := by
  have hne {d : Char} := ne_of_test (d := d) h
  simp [cut, isBlank, h, hne (d := ' ') rfl, hne (d := '\r') rfl, hne (d := '\t') rfl,
    hne (d := '\n') rfl, hne (d := '"') rfl]

theorem cut_of_letter {c : Char} (h : beginsWord c = true) (cs : List Char) :
    cut c cs = cutWord c cs := by
  have hne {d : Char} := ne_of_test (d := d) h
  have hletter : Letter c := (beginsWord_iff c).mp h
  have hdigit : c.isDigit = false := (eq_false_iff isDigit_iff c).mpr hletter.not_digit
  simp [cut, isBlank, h, hdigit, hne (d := ' ') rfl, hne (d := '\r') rfl, hne (d := '\t') rfl,
    hne (d := '\n') rfl, hne (d := '"') rfl]

/-- A run of characters that pass a test, and what stands behind it. -/
theorem span_append {test : Char → Bool} {run rest : List Char}
    (hrun : ∀ c ∈ run, test c = true) (hrest : ∀ c ∈ rest.head?, test c = false) :
    (run ++ rest).takeWhile test = run ∧ (run ++ rest).dropWhile test = rest := by
  rw [List.takeWhile_append_of_pos hrun, List.dropWhile_append_of_pos hrun]
  cases rest with
  | nil => simp
  | cons c rest =>
      have hc := hrest c rfl
      simp [hc]

theorem bne_of_not_mem {d : Char} {cs : List Char} (h : d ∉ cs) :
    ∀ c ∈ cs, (c != d) = true := by
  intro c hc
  rw [bne_iff_ne]
  rintro rfl
  exact h hc

theorem cutComment_of_regular {body rest : List Char} (h : Regular (comment body) rest) :
    cutComment (body ++ rest) = (comment body, rest) := by
  obtain ⟨hbody, hrest⟩ := h
  have hend : ∀ c ∈ rest.head?, (c != '\n') = false := by
    intro c hc
    rcases hrest with rfl | hn
    · cases hc
    · rw [hn] at hc
      cases hc
      rfl
  obtain ⟨htake, hdrop⟩ := span_append (bne_of_not_mem hbody) hend
  rw [cutComment, htake, hdrop]

theorem cutString_of_regular {body : List Char} (h : '"' ∉ body) (rest : List Char) :
    cutString (body ++ '"' :: rest) = (string body, rest) := by
  have hend : ∀ c ∈ ('"' :: rest).head?, (c != '"') = false := by
    intro c hc
    cases hc
    rfl
  obtain ⟨htake, hdrop⟩ := span_append (bne_of_not_mem h) hend
  rw [cutString, htake, hdrop]

theorem cutString_of_open {body : List Char} (h : '"' ∉ body) :
    cutString body = (openString body, []) := by
  have hdrop : body.dropWhile (· != '"') = [] :=
    List.dropWhile_eq_nil_iff.mpr (bne_of_not_mem h)
  rw [cutString, hdrop]

theorem cutNumber_of_regular {c : Char} {ws fraction rest : List Char}
    (h : Regular (number (c :: ws) fraction) rest) :
    ∃ cs, (number (c :: ws) fraction).text ++ rest = c :: cs ∧
      cutNumber c cs = (number (c :: ws) fraction, rest) := by
  obtain ⟨_, hdigits, hend, hpoint⟩ := h
  have hws : ∀ d ∈ ws, d.isDigit = true := by
    intro d hd
    exact (isDigit_iff d).mpr (hdigits d (by simp [hd]))
  have hrest : ∀ d ∈ rest.head?, d.isDigit = false := by
    intro d hd
    exact (eq_false_iff isDigit_iff d).mpr (hend d hd)
  cases fraction with
  | nil =>
      refine ⟨ws ++ rest, rfl, ?_⟩
      obtain ⟨htake, hdrop⟩ := span_append hws hrest
      simp only [cutNumber, htake, hdrop]
      split
      · rename_i d more
        have hd : d.isDigit = false := (eq_false_iff isDigit_iff d).mpr (hpoint rfl d more rfl)
        rw [hd]
        rfl
      · rfl
  | cons d fs =>
      refine ⟨ws ++ '.' :: d :: (fs ++ rest), by simp [text], ?_⟩
      have hd : d.isDigit = true := (isDigit_iff d).mpr (hdigits d (by simp))
      have hfs : ∀ x ∈ fs, x.isDigit = true := by
        intro x hx
        exact (isDigit_iff x).mpr (hdigits x (by simp [hx]))
      have hdot : ∀ x ∈ ('.' :: d :: (fs ++ rest)).head?, x.isDigit = false := by
        intro x hx
        cases hx
        rfl
      obtain ⟨htake, hdrop⟩ := span_append hws hdot
      obtain ⟨hfrac, hafter⟩ := span_append hfs hrest
      simp only [cutNumber, htake, hdrop, hd, if_true, hfrac, hafter]

theorem cutWord_of_regular {c : Char} {cs rest : List Char} (h : Regular (word (c :: cs)) rest) :
    cutWord c (cs ++ rest) = (word (c :: cs), rest) := by
  obtain ⟨⟨_, _, hcs, _, hletters⟩, hend⟩ := h
  cases hcs
  have hword : ∀ d ∈ cs, continuesWord d = true := by
    intro d hd
    exact (continuesWord_iff d).mpr (hletters d hd)
  have hafter : ∀ d ∈ rest.head?, continuesWord d = false := by
    intro d hd
    exact (eq_false_iff continuesWord_iff d).mpr (hend d hd)
  obtain ⟨htake, hdrop⟩ := span_append hword hafter
  rw [cutWord, htake, hdrop]

theorem cutSymbol_of_head_ne {cs : List Char} (h : cs.head? ≠ some '=') (c : Char) :
    cutSymbol c cs = cutMark c cs := by
  unfold cutSymbol
  split
  · exact absurd rfl h
  · rfl

theorem cutSymbol_of_not_pair {c : Char} (h : Kind.ofPair? c = none) (cs : List Char) :
    cutSymbol c cs = cutMark c cs := by
  unfold cutSymbol
  split
  · rename_i hk
    rw [h] at hk
    cases hk
  · rfl

theorem cut_of_other {c : Char} (hblank : isBlank c = false) (hnewline : c ≠ '\n')
    (hquote : c ≠ '"') (hdigit : c.isDigit = false) (hletter : beginsWord c = false)
    {cs : List Char} (hslash : c = '/' → cs.head? ≠ some '/') : cut c cs = cutSymbol c cs := by
  have hn : (c == '\n') = false := beq_eq_false_iff_ne.mpr hnewline
  have hq : (c == '"') = false := beq_eq_false_iff_ne.mpr hquote
  simp only [cut, hblank, hn, hq, hdigit, hletter, Bool.false_eq_true, if_false]
  split
  · exact absurd rfl (hslash rfl)
  · rfl

theorem cutSymbol_of_regular {spelling rest : List Char} {kind : Kind}
    (h : Regular (symbol spelling kind) rest) :
    ∃ c cs, spelling ++ rest = c :: cs ∧ cut c cs = (symbol spelling kind, rest) := by
  rcases h with h | ⟨h, hne⟩ | ⟨h, hne⟩ | h
  · simp only [pairs, List.mem_cons, Prod.mk.injEq, List.not_mem_nil, or_false] at h
    rcases h with ⟨rfl, rfl⟩ | ⟨rfl, rfl⟩ | ⟨rfl, rfl⟩ | ⟨rfl, rfl⟩ <;> exact ⟨_, _, rfl, rfl⟩
  · simp only [leaders, List.mem_cons, Prod.mk.injEq, List.not_mem_nil, or_false] at h
    rcases h with ⟨rfl, rfl⟩ | ⟨rfl, rfl⟩ | ⟨rfl, rfl⟩ | ⟨rfl, rfl⟩ <;>
      exact ⟨_, _, rfl, cutSymbol_of_head_ne hne _⟩
  · simp only [Prod.mk.injEq] at h
    obtain ⟨rfl, rfl⟩ := h
    have hcut := cut_of_other (c := '/') rfl (by decide) (by decide) rfl rfl fun _ => hne
    exact ⟨_, _, rfl, hcut.trans (cutSymbol_of_not_pair rfl _)⟩
  · simp only [marks, List.mem_cons, Prod.mk.injEq, List.not_mem_nil, or_false] at h
    rcases h with ⟨rfl, rfl⟩ | ⟨rfl, rfl⟩ | ⟨rfl, rfl⟩ | ⟨rfl, rfl⟩ | ⟨rfl, rfl⟩ | ⟨rfl, rfl⟩ |
      ⟨rfl, rfl⟩ | ⟨rfl, rfl⟩ | ⟨rfl, rfl⟩ | ⟨rfl, rfl⟩ <;>
      exact ⟨_, _, rfl, cutSymbol_of_not_pair rfl _⟩

theorem ofPair?_eq_some {c : Char} {k : Kind} (h : Kind.ofPair? c = some k) :
    ([c, '='], k) ∈ pairs := by
  unfold Kind.ofPair? at h
  split at h <;> cases h <;> decide

theorem ofMark?_eq_some {c : Char} {k : Kind} (h : Kind.ofMark? c = some k) :
    ([c], k) ∈ leaders ∧ Kind.ofPair? c ≠ none ∨ ([c], k) = (['/'], .slash) ∨ ([c], k) ∈ marks := by
  unfold Kind.ofMark? at h
  split at h <;> cases h <;> decide

theorem ofPair?_of_ofMark? {c : Char} (h : Kind.ofMark? c = none) : Kind.ofPair? c = none := by
  unfold Kind.ofPair?
  split <;> first | rfl | cases h

theorem ofMark?_head : ∀ x ∈ pairs ++ leaders ++ [(['/'], Kind.slash)] ++ marks,
    x.1.head?.any (fun c => (Kind.ofMark? c).isSome) = true := by
  decide

/-- The characters with which no piece but a stray one begins. -/
theorem stands_stray_iff (c : Char) (rest : List Char) :
    Stands (stray c) rest ↔ isBlank c = false ∧ c ≠ '\n' ∧ c ≠ '"' ∧ c.isDigit = false ∧
      beginsWord c = false ∧ Kind.ofMark? c = none := by
  constructor
  · intro h
    refine ⟨?_, ?_, ?_, ?_, ?_, ?_⟩
    · rw [eq_false_iff isBlank_iff]
      intro hc
      exact h (blank c) [] hc rfl
    · rintro rfl
      exact h newline [] trivial rfl
    · rintro rfl
      exact h (openString []) [] ⟨by simp, rfl⟩ rfl
    · rw [eq_false_iff isDigit_iff]
      intro hc
      exact h (number [c] []) [] ⟨by simp, by simpa using hc, by simp, by simp⟩ rfl
    · rw [eq_false_iff beginsWord_iff]
      intro hc
      exact h (word [c]) [] ⟨⟨c, [], rfl, hc, by simp⟩, by simp⟩ rfl
    · cases hk : Kind.ofMark? c with
      | none => rfl
      | some k =>
          rcases ofMark?_eq_some hk with ⟨hm, _⟩ | hm | hm
          · exact absurd rfl (h (symbol [c] k) [] (.inr (.inl ⟨hm, by simp⟩)))
          · exact absurd rfl (h (symbol [c] k) [] (.inr (.inr (.inl ⟨hm, by simp⟩))))
          · exact absurd rfl (h (symbol [c] k) [] (.inr (.inr (.inr hm))))
  · rintro ⟨hblank, hnewline, hquote, hdigit, hletter, hmark⟩ p rest' hp hhead
    rw [eq_false_iff isBlank_iff] at hblank
    rw [eq_false_iff isDigit_iff] at hdigit
    rw [eq_false_iff beginsWord_iff] at hletter
    cases p with
    | blank d =>
        cases hhead
        exact hblank hp
    | newline => exact hnewline (Option.some.inj hhead).symm
    | comment body =>
        cases hhead
        cases hmark
    | string body => exact hquote (Option.some.inj hhead).symm
    | openString body => exact hquote (Option.some.inj hhead).symm
    | number whole fraction =>
        obtain ⟨hne, hdigits, _⟩ := hp
        cases whole with
        | nil => exact hne rfl
        | cons d ws =>
            obtain rfl : d = c := by cases fraction <;> exact Option.some.inj hhead
            exact hdigit (hdigits d (by simp))
    | word letters =>
        obtain ⟨⟨d, ds, rfl, hd, _⟩, _⟩ := hp
        cases hhead
        exact hletter hd
    | symbol spelling kind =>
        have hmem : (spelling, kind) ∈ pairs ++ leaders ++ [(['/'], Kind.slash)] ++ marks := by
          simp only [List.mem_append, List.mem_singleton]
          rcases hp with hp | ⟨hp, _⟩ | ⟨hp, _⟩ | hp
          · exact .inl (.inl (.inl hp))
          · exact .inl (.inl (.inr hp))
          · exact .inl (.inr hp)
          · exact .inr hp
        have hsome := ofMark?_head _ hmem
        have hspelling : spelling.head? = some c := hhead
        rw [hspelling, Option.any_some, hmark] at hsome
        cases hsome
    | stray d => exact hp

theorem cutString_stands (cs : List Char) : Stands (cutString cs).1 (cutString cs).2 := by
  unfold cutString
  cases hd : cs.dropWhile (· != '"') with
  | nil =>
      refine ⟨fun hmem => ?_, rfl⟩
      have hne := List.dropWhile_eq_nil_iff.mp hd _ hmem
      simp at hne
  | cons q rest =>
      change '"' ∉ cs.takeWhile (· != '"')
      intro hmem
      have hne := List.mem_takeWhile_imp hmem
      simp at hne

theorem head_dropWhile {test : Char → Bool} {cs : List Char} :
    ∀ c ∈ (cs.dropWhile test).head?, test c = false := by
  intro c hc
  have h := List.head?_dropWhile_not test cs
  rw [hc] at h
  simpa using h

theorem cutNumber_stands {c : Char} (h : c.isDigit = true) (cs : List Char) :
    Stands (cutNumber c cs).1 (cutNumber c cs).2 := by
  have hwhole : ∀ d ∈ c :: cs.takeWhile Char.isDigit, Digit d := by
    intro d hd
    rw [← isDigit_iff]
    rcases List.mem_cons.mp hd with rfl | hd
    · exact h
    · exact List.mem_takeWhile_imp hd
  have hend : ∀ d ∈ (cs.dropWhile Char.isDigit).head?, ¬ Digit d := by
    intro d hd
    rw [← eq_false_iff isDigit_iff]
    exact head_dropWhile d hd
  unfold cutNumber
  split
  · rename_i d more hd
    split
    · rename_i hdig
      refine ⟨by simp, ?_, ?_, by simp⟩
      · intro x hx
        rcases List.mem_append.mp hx with hx | hx
        · exact hwhole x hx
        · rw [← isDigit_iff]
          rcases List.mem_cons.mp hx with rfl | hx
          · exact hdig
          · exact List.mem_takeWhile_imp hx
      · intro x hx
        rw [← eq_false_iff isDigit_iff]
        exact head_dropWhile x hx
    · rename_i hdig
      rw [isDigit_iff] at hdig
      rw [hd] at hend
      refine ⟨by simp, by simpa using hwhole, hend, ?_⟩
      rintro _ x xs hx
      cases hx
      exact hdig
  · rename_i hno
    refine ⟨by simp, by simpa using hwhole, hend, ?_⟩
    intro _ d more hd
    exact absurd hd (hno d more)

theorem cutWord_stands {c : Char} (h : beginsWord c = true) (cs : List Char) :
    Stands (cutWord c cs).1 (cutWord c cs).2 := by
  refine ⟨⟨c, _, rfl, (beginsWord_iff c).mp h, ?_⟩, ?_⟩
  · intro d hd
    rw [← continuesWord_iff]
    exact List.mem_takeWhile_imp hd
  · intro d hd
    rw [← eq_false_iff continuesWord_iff]
    exact head_dropWhile d hd

theorem cutComment_stands (cs : List Char) : Stands (cutComment cs).1 (cutComment cs).2 := by
  refine ⟨fun hmem => ?_, ?_⟩
  · have hne := List.mem_takeWhile_imp hmem
    simp at hne
  · cases hd : cs.dropWhile (· != '\n') with
    | nil => exact .inl hd
    | cons c rest =>
        have hc : (c != '\n') = false := head_dropWhile c (by rw [hd]; rfl)
        have hn : c = '\n' := by simpa using hc
        refine .inr ?_
        change (cs.dropWhile (· != '\n')).head? = some '\n'
        rw [hd, hn]
        rfl

theorem cutSymbol_stands {c : Char} (hblank : isBlank c = false) (hnewline : c ≠ '\n')
    (hquote : c ≠ '"') (hdigit : c.isDigit = false) (hletter : beginsWord c = false)
    {cs : List Char} (hslash : c = '/' → cs.head? ≠ some '/') :
    Stands (cutSymbol c cs).1 (cutSymbol c cs).2 := by
  unfold cutSymbol
  split
  · rename_i rest k hk
    exact .inl (ofPair?_eq_some hk)
  · rename_i hno
    unfold cutMark
    cases hm : Kind.ofMark? c with
    | none =>
        exact (stands_stray_iff c _).mpr ⟨hblank, hnewline, hquote, hdigit, hletter, hm⟩
    | some k =>
        rcases ofMark?_eq_some hm with ⟨hlead, hpair⟩ | hsame | hmark
        · refine .inr (.inl ⟨hlead, fun hhead => ?_⟩)
          obtain ⟨k', hk'⟩ := Option.ne_none_iff_exists'.mp hpair
          obtain ⟨rest, hrest⟩ := List.head?_eq_some_iff.mp hhead
          exact hno rest k' hrest hk'
        · refine .inr (.inr (.inl ⟨hsame, hslash ?_⟩))
          simp only [Prod.mk.injEq, List.cons.injEq, and_true] at hsame
          exact hsame.1
        · exact .inr (.inr (.inr hmark))

/-- Whatever is cut off a text stands in its class, in front of what is left. -/
theorem stands_cut (c : Char) (cs : List Char) : Stands (cut c cs).1 (cut c cs).2 := by
  unfold cut
  split
  · rename_i h
    exact (isBlank_iff c).mp h
  split
  · exact trivial
  split
  · exact cutString_stands cs
  split
  · rename_i h
    exact cutNumber_stands h cs
  split
  · rename_i h
    exact cutWord_stands h cs
  rename_i hblank hnewline hquote hdigit hletter
  split
  · exact cutComment_stands _
  · rename_i hno
    refine cutSymbol_stands (by simpa using hblank) (by simpa using hnewline)
      (by simpa using hquote) (by simpa using hdigit) (by simpa using hletter) ?_
    rintro rfl hhead
    obtain ⟨rest, hrest⟩ := List.head?_eq_some_iff.mp hhead
    exact hno rest rfl hrest

/-- A piece that stands in its class is the one that is cut off. -/
theorem Stands.cut_eq {p : Piece} {rest : List Char} (h : Stands p rest) :
    ∃ c cs, p.text ++ rest = c :: cs ∧ cut c cs = (p, rest) := by
  cases p with
  | blank c =>
      refine ⟨c, rest, rfl, ?_⟩
      unfold cut
      rw [if_pos ((isBlank_iff c).mpr h)]
  | newline => exact ⟨_, _, rfl, rfl⟩
  | comment body => exact ⟨_, _, rfl, cutComment_of_regular h⟩
  | string body =>
      refine ⟨'"', body ++ '"' :: rest, by simp [text], ?_⟩
      exact cutString_of_regular h rest
  | openString body =>
      obtain ⟨hbody, rfl⟩ := h
      refine ⟨'"', body, by simp [text], ?_⟩
      exact cutString_of_open hbody
  | number whole fraction =>
      cases whole with
      | nil => exact absurd rfl h.1
      | cons c ws =>
          obtain ⟨cs, htext, hcut⟩ := cutNumber_of_regular h
          have hc : c.isDigit = true := (isDigit_iff c).mpr (h.2.1 c (by simp))
          exact ⟨c, cs, htext, (cut_of_digit hc cs).trans hcut⟩
  | word letters =>
      obtain ⟨⟨c, cs, rfl, hc, _⟩, _⟩ := id h
      refine ⟨c, cs ++ rest, rfl, ?_⟩
      exact (cut_of_letter ((beginsWord_iff c).mpr hc) _).trans (cutWord_of_regular h)
  | symbol spelling kind => exact cutSymbol_of_regular h
  | stray c =>
      refine ⟨c, rest, rfl, ?_⟩
      obtain ⟨hblank, hnewline, hquote, hdigit, hletter, hmark⟩ := (stands_stray_iff c rest).mp h
      have hslash : c = '/' → rest.head? ≠ some '/' := by
        rintro rfl
        cases hmark
      rw [cut_of_other hblank hnewline hquote hdigit hletter hslash,
        cutSymbol_of_not_pair (ofPair?_of_ofMark? hmark), cutMark, hmark]

theorem pieces_decomposes (cs : List Char) : Decomposes cs (pieces cs) := by
  induction cs using pieces.induct with
  | case1 =>
      rw [pieces]
      exact .nil
  | case2 c cs ih =>
      rw [pieces]
      have h := Decomposes.cons (stands_cut c cs) ih
      rwa [cut_text] at h

/-- There is no other way to take a text apart. -/
theorem Decomposes.eq_pieces {cs : List Char} {ps : List Piece} (h : Decomposes cs ps) :
    ps = pieces cs := by
  induction h with
  | nil => rw [pieces]
  | @cons p rest ps hp _ ih =>
      obtain ⟨c, cs, htext, hcut⟩ := hp.cut_eq
      rw [htext, pieces, hcut, ← ih]

/-- The pieces that are words of the language. -/
def bearsToken : Piece → Bool
  | string _ | number _ _ | word _ | symbol _ _ => true
  | _ => false

/-- The token that a piece stands for, apart from its line. The number that a
piece stands for is read off its text. -/
def Spells (p : Piece) (t : Token) : Prop :=
  t.lexeme = String.ofList p.text ∧
    match p with
    | string body => t.kind = .string ∧ t.literal = .string (String.ofList body)
    | number _ _ => t.kind = .number ∧ ∃ x, Decimal.readFloat? t.lexeme = some x ∧
        t.literal = .number x
    | word _ => t.literal = .nil ∧ ((t.lexeme, t.kind) ∈ Kind.keywords ∨
        t.kind = .identifier ∧ ∀ k, (t.lexeme, k) ∉ Kind.keywords)
    | symbol _ kind => t.kind = kind ∧ t.literal = .nil
    | _ => False

/-- What is wrong with a piece that is neither a token nor layout. -/
def flaw? : Piece → Option Flaw
  | openString _ => some .unterminatedString
  | stray _ => some .unexpectedCharacter
  | _ => none

theorem read?_of_digits {whole fraction : List Char} (hne : whole ≠ [])
    (hwhole : ∀ c ∈ whole, c.isDigit = true) (hfraction : ∀ c ∈ fraction, c.isDigit = true) :
    Decimal.read? (number whole fraction).text = some (Decimal.ofDigits whole fraction) := by
  have hempty : whole.isEmpty = false := List.isEmpty_eq_false_iff.mpr hne
  cases fraction with
  | nil =>
      have htake := List.takeWhile_eq_self_iff.mpr hwhole
      have hdrop := List.dropWhile_eq_nil_iff.mpr hwhole
      simp [Decimal.read?, text, htake, hdrop, hempty]
  | cons d fs =>
      have hdot : ∀ x ∈ ('.' :: d :: fs).head?, x.isDigit = false := by
        intro x hx
        cases hx
        rfl
      obtain ⟨htake, hdrop⟩ := span_append hwhole hdot
      have hfrac := List.takeWhile_eq_self_iff.mpr hfraction
      have hafter := List.dropWhile_eq_nil_iff.mpr hfraction
      simp only [Decimal.read?, text, htake, hdrop, hfrac, hafter, hempty, Bool.false_and,
        Bool.false_eq_true, if_false]

theorem takeSign_of_digit {c : Char} (h : c.isDigit = true) (cs : List Char) :
    Decimal.takeSign (c :: cs) = (false, c :: cs) := by
  unfold Decimal.takeSign
  split
  · rename_i heq
    cases heq
    cases h
  · rename_i heq
    cases heq
    cases h
  · rfl

theorem readFloat?_of_digits {whole fraction : List Char} (hne : whole ≠ [])
    (h : ∀ c ∈ whole ++ fraction, Digit c) :
    Decimal.readFloat? (String.ofList (number whole fraction).text) =
      some (Decimal.ofDigits whole fraction).toFloat := by
  have hdigits : ∀ c ∈ whole ++ fraction, c.isDigit = true := by
    intro c hc
    exact (isDigit_iff c).mpr (h c hc)
  have hread := read?_of_digits hne (fun c hc => hdigits c (List.mem_append_left _ hc))
    fun c hc => hdigits c (List.mem_append_right _ hc)
  obtain ⟨c, ws, rfl⟩ := List.exists_cons_of_ne_nil hne
  have hc : c.isDigit = true := hdigits c (by simp)
  obtain ⟨cs, htext⟩ : ∃ cs, (number (c :: ws) fraction).text = c :: cs := by
    cases fraction <;> exact ⟨_, rfl⟩
  have hinf : (c :: cs == ['i', 'n', 'f']) = false := by
    rw [List.cons_beq_cons, ne_of_test hc rfl, Bool.false_and]
  have hnan : (c :: cs == ['n', 'a', 'n']) = false := by
    rw [List.cons_beq_cons, ne_of_test hc rfl, Bool.false_and]
  rw [htext] at hread ⊢
  simp only [Decimal.readFloat?, String.toList_ofList, takeSign_of_digit hc, hinf, hnan, hread,
    Bool.false_eq_true, if_false, Option.map_some]

theorem ofWord_mem_or (w : String) : (w, Kind.ofWord w) ∈ Kind.keywords ∨
    Kind.ofWord w = .identifier ∧ ∀ k, (w, k) ∉ Kind.keywords := by
  unfold Kind.ofWord
  cases h : Kind.keywords.lookup w with
  | some k =>
      obtain ⟨front, back, hsplit, _⟩ := List.lookup_eq_some_iff.mp h
      refine .inl ?_
      rw [hsplit]
      simp
  | none =>
      refine .inr ⟨rfl, fun k hk => ?_⟩
      have hne := List.lookup_eq_none_iff.mp h (w, k) hk
      simp at hne

theorem token?_eq_none {p : Piece} (h : p.bearsToken = false) (line : Nat) :
    p.token? line = none := by
  cases p <;> first | rfl | cases h

theorem token?_spells {p : Piece} {rest : List Char} (hp : Stands p rest)
    (h : p.bearsToken = true) (line : Nat) : ∃ t, p.token? line = some t ∧ Spells p t := by
  cases p with
  | string body => exact ⟨_, rfl, rfl, rfl, rfl⟩
  | number whole fraction =>
      exact ⟨_, rfl, rfl, rfl, _, readFloat?_of_digits hp.1 hp.2.1, rfl⟩
  | word letters => exact ⟨_, rfl, rfl, rfl, ofWord_mem_or _⟩
  | symbol spelling kind => exact ⟨_, rfl, rfl, rfl, rfl⟩
  | _ => cases h

end Piece

namespace Scan
open Piece

theorem tokensFrom_spells {cs : List Char} {ps : List Piece} (h : Decomposes cs ps) (line : Nat) :
    ∃ ts last, tokensFrom line ps = ts ++ [Token.endOf last] ∧
      List.Forall₂ Spells (ps.filter bearsToken) ts := by
  induction h generalizing line with
  | nil => exact ⟨[], line, rfl, .nil⟩
  | @cons p rest ps hp _ ih =>
      obtain ⟨ts, last, htokens, hspells⟩ := ih (line + p.newlines)
      rw [tokensFrom, htokens]
      cases hb : p.bearsToken with
      | false =>
          rw [token?_eq_none hb, List.filter_cons_of_neg (by simp [hb])]
          exact ⟨ts, last, rfl, hspells⟩
      | true =>
          obtain ⟨t, ht, hspell⟩ := token?_spells hp hb (line + p.newlines)
          rw [ht, List.filter_cons_of_pos hb]
          exact ⟨t :: ts, last, rfl, .cons hspell hspells⟩

theorem errorsFrom_flaws (line : Nat) (ps : List Piece) :
    (errorsFrom line ps).map LexicalError.flaw = ps.filterMap flaw? := by
  induction ps generalizing line with
  | nil => rfl
  | cons p ps ih =>
      rw [errorsFrom, List.map_append, ih]
      cases p <;> rfl

/-- A scan follows the only way to take its text apart into pieces, and gives
one token or one error for each piece that is not layout. -/
theorem ofText_unique_decomposition (source : String) :
    ∃ ps, Decomposes source.toList ps ∧ (∀ qs, Decomposes source.toList qs → qs = ps) ∧
      (∃ ts line, (ofText source).tokens = ts ++ [Token.endOf line] ∧
        List.Forall₂ Spells (ps.filter bearsToken) ts) ∧
      (ofText source).errors.map LexicalError.flaw = ps.filterMap flaw? := by
  have h := pieces_decomposes source.toList
  refine ⟨pieces source.toList, h, ?_, tokensFrom_spells h 1, errorsFrom_flaws 1 _⟩
  intro qs hqs
  exact hqs.eq_pieces

end Scan

end Lox

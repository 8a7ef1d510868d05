import Lox.Proofs.Recovery

/-!
# Statement boundaries

No expression reaches across a semicolon or a keyword that begins a statement:
to a reader of expressions, tokens that begin with one of these are like the
end. A program that has a boundary at some place is therefore read like the two
programs on both sides of it, whatever is wrong with the first one.
-/
namespace Lox

namespace Reader
variable {α β : Type}

/-- An outcome with `y` behind whatever was left. -/
def extend (y : List Token) : Except Halt (α × List Token) → Except Halt (α × List Token)
  | .ok (a, rest) => .ok (a, rest ++ y)
  | .error h => .error ⟨h.expected, h.rest ++ y⟩

theorem extend_extend (x y : List Token) (r : Except Halt (α × List Token)) :
    extend y (extend x r) = extend (x ++ y) r := by
  cases r <;> simp [extend]

theorem extend_nil (r : Except Halt (α × List Token)) : extend [] r = r := by
  cases r <;> simp [extend]

/-- A reader to which `y` is like the end of the tokens. -/
def EndsAt (y : List Token) (r : Reader α) : Prop := ∀ ts, r (ts ++ y) = extend y (r ts)

theorem andThen_extend {r : Reader α} {k : α → Reader β} {y ts : List Token}
    (hr : r (ts ++ y) = extend y (r ts))
    (hk : ∀ a rest, r ts = .ok (a, rest) → k a (rest ++ y) = extend y (k a rest)) :
    andThen r k (ts ++ y) = extend y (andThen r k ts) := by
  cases h : r ts with
  | error x =>
      rw [h] at hr
      rw [andThen_of_error h, andThen_of_error hr]
      rfl
  | ok x =>
      rw [h] at hr
      rw [andThen_of_ok h, andThen_of_ok hr]
      exact hk x.1 x.2 h

theorem expect_extend {k : Kind} (missing : Expectation) (a : α) {ts y : List Token}
    (h : ts ≠ [] ∨ ∀ t ∈ y.head?, t.kind ≠ k) :
    expect k missing a (ts ++ y) = extend y (expect k missing a ts) := by
  cases ts with
  | cons t ts =>
      rw [List.cons_append, expect_cons, expect_cons]
      split <;> rfl
  | nil =>
      rcases h with h | h
      · exact absurd rfl h
      · cases y with
        | nil => rfl
        | cons t y =>
            rw [List.nil_append, expect_cons, if_neg (h t rfl)]
            rfl

end Reader

namespace Segment

/-- Tokens that no expression enters. -/
def Barrier (y : List Token) : Prop :=
  ∀ t ∈ y.head?, t.kind = .semicolon ∨ t.kind ∈ openers

theorem Barrier.start_eq {t : Token} {y : List Token} (h : Barrier (t :: y)) :
    Expr.start t = .refused := by
  rcases h t rfl with hk | hk
  · simp only [Expr.start, hk]
  · simp only [openers, List.mem_cons, List.not_mem_nil, or_false] at hk
    rcases hk with hk | hk | hk | hk | hk | hk | hk | hk <;> simp only [Expr.start, hk]

theorem Barrier.has_eq {t : Token} {y : List Token} (h : Barrier (t :: y)) (l : Expr.Level) :
    l.has t.kind = false := by
  rcases h t rfl with hk | hk
  · cases l <;> simp only [Expr.Level.has, hk]
  · simp only [openers, List.mem_cons, List.not_mem_nil, or_false] at hk
    rcases hk with hk | hk | hk | hk | hk | hk | hk | hk <;>
      cases l <;> simp only [Expr.Level.has, hk]

theorem Barrier.ne_rightParen {y : List Token} (h : Barrier y) :
    ∀ t ∈ y.head?, t.kind ≠ .rightParen := by
  intro t ht hk
  rcases h t ht with hsemi | hopen
  · rw [hk] at hsemi
    cases hsemi
  · rw [hk] at hopen
    simp [openers] at hopen

end Segment

namespace Expr
open Reader Segment

theorem readUnary_endsAt {y : List Token} (hy : Barrier y) {nested : Reader Expr}
    (hn : EndsAt y nested) : EndsAt y (readUnary nested) := by
  intro ts
  induction ts with
  | nil =>
      rw [List.nil_append, readUnary_nil]
      cases y with
      | nil => rw [readUnary_nil]; rfl
      | cons t y => rw [readUnary_cons, hy.start_eq]; rfl
  | cons t ts ih =>
      rw [List.cons_append, readUnary_cons, readUnary_cons]
      cases start t with
      | operator => exact andThen_extend ih fun e rest _ => rfl
      | value v => rfl
      | opening =>
          refine andThen_extend (hn ts) fun e rest _ => ?_
          exact expect_extend _ _ (.inr hy.ne_rightParen)
      | refused => rfl

theorem readChain_endsAt {y : List Token} (hy : Barrier y) {l : Level} {operand : Reader Expr}
    (ho : EndsAt y operand) (n : Nat) (left : Expr) :
    EndsAt y (readChain l operand n left) := by
  induction n generalizing left with
  | zero =>
      intro ts
      rw [readChain_zero, readChain_zero]
      rfl
  | succ n ih =>
      intro ts
      cases ts with
      | nil =>
          rw [List.nil_append, readChain_nil]
          cases y with
          | nil => rw [readChain_nil]; rfl
          | cons t y => rw [readChain_of_not_has (hy.has_eq l)]; rfl
      | cons t ts =>
          rw [List.cons_append]
          cases h : l.has t.kind with
          | false => rw [readChain_of_not_has h, readChain_of_not_has h]; rfl
          | true =>
              rw [readChain_of_has h, readChain_of_has h]
              exact andThen_extend (ho ts) fun right rest _ => ih _ rest

theorem readWithin_endsAt {y : List Token} (hy : Barrier y) (n depth : Nat) :
    EndsAt y (readWithin n depth) := by
  refine readWithin_induct (P := fun _ r => EndsAt y r) ?_ ?_ ?_ depth
  · intro ts
    rw [readWithin_zero, readWithin_zero]
    rfl
  · intro nested hn
    exact readUnary_endsAt hy hn
  · intro l operand ho ts
    rw [readLevel_eq]
    exact andThen_extend (ho ts) fun left rest _ => readChain_endsAt hy ho n left rest

/-- An expression ends in front of a semicolon or an opening keyword just as it
ends at the end. -/
theorem read_endsAt {y : List Token} (hy : Barrier y) : EndsAt y read := by
  intro ts
  have hle : ts.length ≤ (ts ++ y).length := by simp
  rw [← readWithin_eq_read hle (Nat.lt_succ_of_le hle)]
  exact readWithin_endsAt hy _ _ ts

end Expr

namespace Segment
open Reader

/-- A boundary lies between `u` and `y`. -/
def Parted (u y : List Token) : Prop :=
  y = [] ∨ (∃ t ∈ u.getLast?, t.kind = .semicolon) ∨ ∃ t ∈ y.head?, t.kind ∈ openers

theorem Parted.suffix {u v y : List Token} (h : Parted u y) (hv : v <:+ u) :
    v = [] ∨ Parted v y := by
  rcases h with hy | ⟨t, ht, hk⟩ | hy
  · exact .inr (.inl hy)
  · obtain ⟨x, rfl⟩ := hv
    cases v with
    | nil => exact .inl rfl
    | cons s v =>
        have hlast := List.getLast?_eq_some_getLast (List.cons_ne_nil s v)
        rw [List.getLast?_append, hlast, Option.some_or, ← hlast] at ht
        exact .inr (.inr (.inl ⟨t, ht, hk⟩))
  · exact .inr (.inr (.inr hy))

/-- Behind a boundary an expression reads nothing, and a semicolon in front of
the boundary is left to the statement. -/
theorem Parted.read_expr {u y : List Token} (h : Parted u y) :
    Expr.read (u ++ y) = extend y (Expr.read u) ∧
      ∀ e rest, Expr.read u = .ok (e, rest) → rest ≠ [] ∨ ∀ t ∈ y.head?, t.kind ≠ .semicolon := by
  rcases h with rfl | ⟨t, ht, hk⟩ | ⟨t, ht, hk⟩
  · refine ⟨by rw [List.append_nil, extend_nil], fun e rest _ => .inr ?_⟩
    intro t ht
    cases ht
  · obtain ⟨v, rfl⟩ := List.getLast?_eq_some_iff.mp ht
    have hbar (x : List Token) : Barrier (t :: x) := by
      intro s hs
      cases hs
      exact .inl hk
    have hv := Expr.read_endsAt (hbar []) v
    refine ⟨?_, fun e rest hr => .inl ?_⟩
    · rw [hv, extend_extend, List.append_assoc]
      exact Expr.read_endsAt (hbar y) v
    · rw [hv] at hr
      cases hx : Expr.read v with
      | error x =>
          rw [hx] at hr
          cases hr
      | ok x =>
          rw [hx] at hr
          cases hr
          simp
  · have hbar : Barrier y := by
      intro s hs
      cases Option.mem_unique ht hs
      exact .inr hk
    refine ⟨Expr.read_endsAt hbar u, fun e rest _ => .inr fun s hs hsemi => ?_⟩
    cases Option.mem_unique ht hs
    rw [hsemi] at hk
    simp [openers] at hk

theorem Parted.closed_extend {u y : List Token} (h : Parted u y) (missing : Expectation)
    (f : Expr → Stmt) :
    andThen Expr.read (fun e => expect .semicolon missing (f e)) (u ++ y) =
      extend y (andThen Expr.read (fun e => expect .semicolon missing (f e)) u) := by
  obtain ⟨hread, hrest⟩ := h.read_expr
  exact andThen_extend hread fun e rest hr => expect_extend missing (f e) (hrest e rest hr)

/-- A statement in front of a boundary is read as if nothing stood behind it. -/
theorem Parted.read_stmt {u y : List Token} (h : Parted u y) (hne : u ≠ []) :
    Stmt.read (u ++ y) = extend y (Stmt.read u) := by
  cases u with
  | nil => exact absurd rfl hne
  | cons t u =>
      by_cases hk : t.kind = .printWord
      · have hu : Parted u y := by
          rcases h.suffix (List.suffix_cons t u) with rfl | hu
          · rcases h with hy | ⟨s, hs, hsemi⟩ | hy
            · exact .inl hy
            · obtain rfl : t = s := by simpa using hs
              rw [hk] at hsemi
              cases hsemi
            · exact .inr (.inr hy)
          · exact hu
        rw [List.cons_append, Stmt.read_of_print hk, Stmt.read_of_print hk, Stmt.readPrint_eq]
        exact hu.closed_extend _ _
      · rw [List.cons_append, Stmt.read_cons, Stmt.read_cons, if_neg hk, if_neg hk,
          Stmt.readExpression_eq]
        exact h.closed_extend _ _

theorem skip_append {t : Token} {u y : List Token} (h : Parted (t :: u) y) :
    skip t.kind (u ++ y) = skip t.kind u ++ y := by
  induction u generalizing t with
  | nil =>
      cases y with
      | nil => rfl
      | cons s y =>
          have hstop : t.kind = .semicolon ∨ s.kind.beginsStatement = true := by
            rcases h with hy | ⟨x, hx, hsemi⟩ | ⟨x, hx, hopen⟩
            · cases hy
            · obtain rfl : t = x := by simpa using hx
              exact .inl hsemi
            · obtain rfl : s = x := by simpa using hx
              exact .inr ((beginsStatement_iff _).mpr hopen)
          rw [List.nil_append, skip.eq_2, if_pos hstop]
          rfl
  | cons s u ih =>
      rw [List.cons_append, skip, skip]
      split
      · rfl
      · rcases h.suffix (List.suffix_cons t (s :: u)) with hnil | hs
        · cases hnil
        · exact ih hs

theorem resume_append {u rest y : List Token} (h : Parted u y) (hne : u ≠ []) :
    resume (u ++ y) (rest ++ y) = resume u rest ++ y := by
  have hpos := List.length_pos_iff.mpr hne
  have hlen : (u ++ y).length - (rest ++ y).length - 1 = u.length - rest.length - 1 := by
    rw [List.length_append, List.length_append]
    omega
  have hle : u.length - rest.length - 1 ≤ u.length := by omega
  rw [resume, resume, hlen, List.drop_append_of_le_length hle]
  cases hd : u.drop (u.length - rest.length - 1) with
  | nil =>
      have hge := List.drop_eq_nil_iff.mp hd
      omega
  | cons t v =>
      have hsuffix : t :: v <:+ u := hd ▸ List.drop_suffix _ u
      rcases h.suffix hsuffix with hnil | hv
      · cases hnil
      · exact skip_append hv

/-- The segments of two programs with a boundary between them. To the first of
them, the second one is the end. -/
theorem all_append (stop : Token) {u y : List Token} (h : u = [] ∨ Parted u y) :
    all stop (u ++ y) = all (y.headD stop) u ++ all stop y := by
  induction u using Segment.induct with
  | nil => rfl
  | ok u s rest hr ih =>
      have hlt := Stmt.read_advances u s rest hr
      have hne : u ≠ [] := by
        rintro rfl
        simp at hlt
      have hp := h.resolve_left hne
      have hsuffix := Stmt.read_trims u
      have hry := hp.read_stmt hne
      rw [hr] at hsuffix hry
      rw [all_of_ok hr, all_of_ok hry, ih (hp.suffix hsuffix)]
      rfl
  | error u x hne hr ih =>
      have hp := h.resolve_left hne
      have hry := hp.read_stmt hne
      rw [hr] at hry
      have hney : u ++ y ≠ [] := by simp [hne]
      have htoken : Halt.error stop ⟨x.expected, x.rest ++ y⟩ = x.error (y.headD stop) := by
        unfold Halt.error
        cases x.rest <;> rfl
      rw [all_of_error hne hr, all_of_error hney hry, htoken, resume_append hp hne,
        ih (hp.suffix (resume_suffix u x.rest))]
      rfl

/-- The errors of a program whose end is marked by another token. -/
def relocate (stop stop' : Token) (e : SyntaxError) : SyntaxError :=
  if e.token = stop then ⟨e.expected, stop'⟩ else e

theorem relocate_error {stop : Token} {x : Halt} (h : stop ∉ x.rest) (stop' : Token) :
    relocate stop stop' (x.error stop) = x.error stop' := by
  cases hr : x.rest with
  | nil =>
      have htoken : (x.error stop).token = stop := by rw [Halt.error, hr]; rfl
      rw [relocate, if_pos htoken, Halt.error, Halt.error, hr]
      rfl
  | cons t rest =>
      have htoken : (x.error stop).token = t := by rw [Halt.error, hr]; rfl
      have hne : (x.error stop).token ≠ stop := by
        rw [htoken]
        rintro rfl
        rw [hr] at h
        exact h List.mem_cons_self
      rw [relocate, if_neg hne, Halt.error, Halt.error, hr]
      rfl

theorem statements_all_stop (stop stop' : Token) (u : List Token) :
    (all stop u).filterMap statement? = (all stop' u).filterMap statement? := by
  induction u using Segment.induct with
  | nil => rfl
  | ok u s rest hr ih =>
      rw [all_of_ok hr, all_of_ok hr]
      exact congrArg (s :: ·) ih
  | error u x hne hr ih =>
      rw [all_of_error hne hr, all_of_error hne hr]
      exact ih

/-- Errors at the end move with the token that marks it; all others stay. -/
theorem errors_all_stop {stop : Token} (stop' : Token) {u : List Token} (h : stop ∉ u) :
    (all stop' u).filterMap error? = ((all stop u).filterMap error?).map (relocate stop stop') := by
  induction u using Segment.induct with
  | nil => rfl
  | ok u s rest hr ih =>
      have hsuffix := Stmt.read_trims u
      rw [hr] at hsuffix
      rw [all_of_ok hr, all_of_ok hr]
      exact ih fun hmem => h (hsuffix.subset hmem)
  | error u x hne hr ih =>
      have hsuffix := Stmt.read_trims u
      rw [hr] at hsuffix
      have hx := relocate_error (fun hmem => h (hsuffix.subset hmem)) stop'
      have hrest := ih fun hmem => h ((resume_suffix u x.rest).subset hmem)
      rw [all_of_error hne hr, all_of_error hne hr]
      simp only [List.filterMap_cons, error?, List.map_cons, hx, hrest]

end Segment

namespace TokenStream
open Segment

/-- Two programs with a boundary between them are read one after the other.
Only an error at the end of the first moves, to where the second begins. -/
theorem parse_append_of_boundary (A B : List Token) (z : Token)
    (hA : ∀ t ∈ A, t.kind ≠ .eof) (hB : ∀ t ∈ B, t.kind ≠ .eof) (hz : z.kind = .eof)
    (h : A = [] ∨ (∃ t ∈ A.getLast?, t.kind = .semicolon) ∨ ∃ t ∈ B.head?, t.kind ∈ openers)
    (r : Reporter) :
    ∃ sAB sA sB, TokenStream.ofTokens? (A ++ B ++ [z]) = some sAB ∧
      TokenStream.ofTokens? (A ++ [z]) = some sA ∧
      TokenStream.ofTokens? (B ++ [z]) = some sB ∧
      (r.parse (Cursor.start sAB)).value.1.statements =
        (r.parse (Cursor.start sA)).value.1.statements ++
          (r.parse (Cursor.start sB)).value.1.statements ∧
      (r.parse (Cursor.start sAB)).value.1.errors =
        (r.parse (Cursor.start sA)).value.1.errors.map
            (fun e => if e.token = z then ⟨e.expected, B.headD z⟩ else e) ++
          (r.parse (Cursor.start sB)).value.1.errors := by
  have hAB : ∀ t ∈ A ++ B, t.kind ≠ .eof := by
    intro t ht
    exact (List.mem_append.mp ht).elim (hA t) (hB t)
  have hzA : z ∉ A := fun hmem => hA z hmem hz
  have hp : A = [] ∨ Parted A B := h.imp id .inr
  refine ⟨_, _, _, ofTokens?_append_stop hAB hz, ofTokens?_append_stop hA hz,
    ofTokens?_append_stop hB hz, ?_, ?_⟩
  · change (all z (A ++ B)).filterMap statement? =
      (all z A).filterMap statement? ++ (all z B).filterMap statement?
    rw [all_append z hp, List.filterMap_append, statements_all_stop (B.headD z) z A]
  · change (all z (A ++ B)).filterMap error? =
      ((all z A).filterMap error?).map (relocate z (B.headD z)) ++ (all z B).filterMap error?
    rw [all_append z hp, List.filterMap_append, errors_all_stop (B.headD z) hzA]

/-- A parenthesis that is not closed. -/
def openNil : List Token := [⟨.leftParen, "(", .nil, 1⟩, ⟨.nilWord, "nil", .nil, 1⟩]

/-- A statement on the second line. -/
def printTrue : List Token :=
  [⟨.printWord, "print", .nil, 2⟩, ⟨.trueWord, "true", .nil, 2⟩, ⟨.semicolon, ";", .nil, 2⟩]

/-- An open parenthesis does not reach into the statement behind it, which is
where its error is found. -/
theorem parse_append_of_boundary_open :
    ∃ sAB sA sB,
      TokenStream.ofTokens? (openNil ++ printTrue ++ [⟨.eof, "", .nil, 2⟩]) = some sAB ∧
      TokenStream.ofTokens? (openNil ++ [⟨.eof, "", .nil, 2⟩]) = some sA ∧
      TokenStream.ofTokens? (printTrue ++ [⟨.eof, "", .nil, 2⟩]) = some sB ∧
      (Reporter.fresh.parse (Cursor.start sAB)).value.1.statements =
        (Reporter.fresh.parse (Cursor.start sA)).value.1.statements ++
          [.print (.literal (.bool true))] ∧
      (Reporter.fresh.parse (Cursor.start sAB)).value.1.errors =
        [⟨.closingParen, ⟨.printWord, "print", .nil, 2⟩⟩] := by
  have hopen : ∀ t ∈ openNil, t.kind ≠ .eof := by simp [openNil]
  have hprint : ∀ t ∈ printTrue, t.kind ≠ .eof := by simp [printTrue]
  obtain ⟨sAB, sA, sB, hAB, hsA, hsB, hstatements, herrors⟩ :=
    parse_append_of_boundary openNil printTrue ⟨.eof, "", .nil, 2⟩ hopen hprint rfl
      (.inr (.inr ⟨_, rfl, by simp [openers]⟩)) Reporter.fresh
  obtain rfl := Option.some.inj hsA
  obtain rfl := Option.some.inj hsB
  exact ⟨sAB, _, _, hAB, hsA, hsB, hstatements, herrors⟩

end TokenStream

end Lox

import Lox.Proofs.Walking

/-!
# What is pending

Two things about the tokens read so far of an expression decide what may come
next: how many parentheses are open, and whether an operand is due. Both can be
kept up to date token by token, without a tree and without levels of operators.
A statement adds whether it prints, and that it is complete behind its semicolon.

The grammar derives exactly the tokens that leave nothing pending, and whatever
is pending can be brought to an end. So the tokens that can be continued are those
of which none is refused. A reader that stops has read such tokens, is told by what
is pending what to expect, and has a token in front of it that is refused.
-/
namespace Lox

namespace Reader
variable {α β : Type}

theorem andThen_eq_error {r : Reader α} {k : α → Reader β} {ts : List Token} {x : Halt}
    (h : andThen r k ts = .error x) :
    r ts = .error x ∨ ∃ a rest, r ts = .ok (a, rest) ∧ k a rest = .error x := by
  cases hr : r ts with
  | error y =>
      rw [andThen_of_error hr] at h
      cases h
      exact .inl rfl
  | ok y =>
      rw [andThen_of_ok hr] at h
      exact .inr ⟨y.1, y.2, rfl, h⟩

theorem expect_eq_error {k : Kind} {missing : Expectation} {a : α} {ts : List Token} {x : Halt}
    (h : expect k missing a ts = .error x) :
    x = ⟨missing, ts⟩ ∧ ∀ t ∈ ts.head?, t.kind ≠ k := by
  cases ts with
  | nil =>
      cases h
      exact ⟨rfl, by simp⟩
  | cons t ts =>
      rw [expect_cons] at h
      split at h
      · cases h
      · rename_i hk
        cases h
        exact ⟨rfl, by simpa using hk⟩

end Reader

section
variable {σ : Type} {step : σ → Token → Option σ} {q q' : σ} {u : List Token}

theorem foldlM_append_of_some (h : u.foldlM step q = some q') (v : List Token) :
    (u ++ v).foldlM step q = v.foldlM step q' := by
  rw [List.foldlM_append, h]
  rfl

theorem foldlM_cons_of_some {t : Token} (h : step q t = some q') (v : List Token) :
    (t :: v).foldlM step q = v.foldlM step q' := by
  rw [List.foldlM_cons, h]
  rfl

theorem foldlM_cons_of_none {t : Token} (h : step q t = none) (v : List Token) :
    (t :: v).foldlM step q = none := by
  rw [List.foldlM_cons, h]
  rfl

theorem foldlM_singleton (t : Token) : [t].foldlM step q = step q t := by
  cases h : step q t with
  | none => rw [foldlM_cons_of_none h]
  | some q' => rw [foldlM_cons_of_some h]; rfl

/-- If all tokens can be followed, so can those in front. -/
theorem exists_foldlM_of_append {v : List Token} (h : (u ++ v).foldlM step q = some q') :
    ∃ mid, u.foldlM step q = some mid ∧ v.foldlM step mid = some q' := by
  cases hu : u.foldlM step q with
  | none =>
      rw [List.foldlM_append, hu] at h
      cases h
  | some mid => exact ⟨mid, rfl, by rwa [foldlM_append_of_some hu] at h⟩

/-- In front of `rest`, or of `stop` if that is empty, the next token is refused. -/
theorem foldlM_append_refused {rest : List Token} {stop : Token} (h : u.foldlM step q = some q')
    (hrest : ∀ t ∈ rest.head?, step q' t = none) (hstop : step q' stop = none) :
    (u ++ [rest.headD stop]).foldlM step q = none := by
  rw [foldlM_append_of_some h, foldlM_singleton]
  cases rest with
  | nil => exact hstop
  | cons t rest => exact hrest t rfl

end

namespace Expr
open Reader

/-- What is pending inside of an expression: open parentheses, and whether an
operand is due next. -/
structure Pending where
  opened : Nat
  due : Bool
  deriving DecidableEq

/-- Operators of any level. -/
def joins (k : Kind) : Bool :=
  Level.equality.has k || Level.comparison.has k || Level.term.has k || Level.factor.has k

theorem joins_iff (k : Kind) : joins k = true ↔ ∃ l : Level, k ∈ l.operators := by
  simp only [joins, Bool.or_eq_true, Level.has_iff]
  constructor
  · rintro (((h | h) | h) | h) <;> exact ⟨_, h⟩
  · rintro ⟨l, h⟩
    cases l <;> simp [h]

theorem joins_eq_false {t : Token} {rest : List Token}
    (h : Phrase.expression.EndsBefore (t :: rest)) : joins t.kind = false := by
  rw [Bool.eq_false_iff, ne_eq, joins_iff]
  rintro ⟨l, hl⟩
  exact h t rfl l (Nat.zero_le _) hl

/-- The tokens that are operands by themselves. -/
def literalKinds : List Kind := [.number, .string, .trueWord, .falseWord, .nilWord]

namespace Pending

/-- At the beginning of an expression. -/
abbrev outset : Pending := ⟨0, true⟩

/-- Behind an expression. -/
abbrev settled : Pending := ⟨0, false⟩

/-- An operand is due, or nothing is, or a parenthesis is open behind an operand. -/
theorem byCases {P : Pending → Prop} (due : ∀ n, P ⟨n, true⟩) (settled : P settled)
    (inner : ∀ n, P ⟨n + 1, false⟩) (q : Pending) : P q := by
  obtain ⟨n, waiting⟩ := q
  cases waiting with
  | true => exact due n
  | false =>
      cases n with
      | zero => exact settled
      | succ n => exact inner n

/-- What is pending behind one more token, unless it is refused. -/
def step : Pending → Token → Option Pending
  | ⟨n, true⟩, t =>
      match start t with
      | .operator => some ⟨n, true⟩
      | .value _ => some ⟨n, false⟩
      | .opening => some ⟨n + 1, true⟩
      | .refused => none
  | ⟨0, false⟩, t => if joins t.kind then some ⟨0, true⟩ else none
  | ⟨n + 1, false⟩, t =>
      if joins t.kind then some ⟨n + 1, true⟩
      else if t.kind = .rightParen then some ⟨n, false⟩
      else none

theorem step_due (n : Nat) (t : Token) : step ⟨n, true⟩ t =
    match start t with
    | .operator => some ⟨n, true⟩
    | .value _ => some ⟨n, false⟩
    | .opening => some ⟨n + 1, true⟩
    | .refused => none := by
  simp only [step]

theorem step_literal {t : Token} (h : t.kind ∈ literalKinds) (n : Nat) :
    step ⟨n, true⟩ t = some ⟨n, false⟩ := by
  rw [step_due, start]
  simp only [literalKinds, List.mem_cons, List.not_mem_nil, or_false] at h
  rcases h with hk | hk | hk | hk | hk <;> simp only [hk]

theorem step_joins {t : Token} (h : joins t.kind = true) (n : Nat) :
    step ⟨n, false⟩ t = some ⟨n, true⟩ := by
  cases n <;> simp only [step, h, if_true]

theorem step_closing {t : Token} (h : t.kind = .rightParen) (n : Nat) :
    step ⟨n + 1, false⟩ t = some ⟨n, false⟩ := by
  simp only [step, h, if_true]
  rfl

theorem step_settled {t : Token} (h : joins t.kind = false) : settled.step t = none := by
  simp only [step, h]
  rfl

theorem step_inner {t : Token} (h : joins t.kind = false) (hk : t.kind ≠ .rightParen) (n : Nat) :
    step ⟨n + 1, false⟩ t = none := by
  simp only [step, h, if_neg hk]
  rfl

/-- An end token continues nothing. -/
theorem step_eof {t : Token} (h : t.kind = .eof) (q : Pending) : q.step t = none := by
  have hnot : joins t.kind = false := by rw [h]; rfl
  cases q using byCases with
  | due n =>
      rw [step_due]
      simp only [start, h]
  | settled => exact step_settled hnot
  | inner n => exact step_inner hnot (by rw [h]; decide) n

/-- What has to come next; `last`, if the expression may end here. -/
def expected (last : Expectation) : Pending → Expectation
  | ⟨_, true⟩ => .operand
  | ⟨0, false⟩ => last
  | ⟨_ + 1, false⟩ => .closingParen

/-- From `q₀` on, the tokens in front of `x.rest` leave something pending that is
what was expected, and the token behind them is refused. -/
def Halts (q₀ : Pending) (ts : List Token) (x : Halt) : Prop :=
  ∃ u q, ts = u ++ x.rest ∧ u.foldlM step q₀ = some q ∧
    (∀ last, q.expected last = x.expected) ∧ ∀ t ∈ x.rest.head?, q.step t = none

theorem Halts.append {q₀ q₁ : Pending} {w ts : List Token} {x : Halt}
    (hw : w.foldlM step q₀ = some q₁) (h : Halts q₁ ts x) : Halts q₀ (w ++ ts) x := by
  obtain ⟨u, q, rfl, hu, hexpected, hrefused⟩ := h
  refine ⟨w ++ u, q, by rw [List.append_assoc], ?_, hexpected, hrefused⟩
  rw [foldlM_append_of_some hw, hu]

theorem Halts.cons {q₀ q₁ : Pending} {t : Token} {ts : List Token} {x : Halt}
    (ht : q₀.step t = some q₁) (h : Halts q₁ ts x) : Halts q₀ (t :: ts) x :=
  Halts.append (w := [t]) (by rw [foldlM_singleton, ht]) h

/-- Nothing was read. -/
theorem halts_here {q : Pending} {ts : List Token} {x : Expectation}
    (hexpected : ∀ last, q.expected last = x) (hrefused : ∀ t ∈ ts.head?, q.step t = none) :
    Halts q ts ⟨x, ts⟩ :=
  ⟨[], q, rfl, rfl, hexpected, hrefused⟩

end Pending

open Pending

/-- Whether a phrase begins with an operand. -/
def Phrase.due : Phrase → Bool
  | tail _ _ => false
  | _ => true

theorem Level.operand_due (l : Level) : l.operand.due = true := by
  cases l <;> rfl

theorem foldlM_literal {t : Token} (h : t.kind ∈ literalKinds) (n : Nat) :
    [t].foldlM step ⟨n, true⟩ = some ⟨n, false⟩ := by
  rw [foldlM_singleton, step_literal h]

/-- A phrase closes all that it opens, and supplies the operand that is due. -/
theorem foldlM_of_derives {p : Phrase} {w : List Token} {e : Expr} (h : Derives p w e)
    (n : Nat) : w.foldlM step ⟨n, p.due⟩ = some ⟨n, false⟩ := by
  induction h generalizing n with
  | @level l w v left e _ _ ihw ihv =>
      have hw := ihw n
      rw [l.operand_due] at hw
      exact (foldlM_append_of_some hw v).trans (ihv n)
  | stop => rfl
  | @join l left right e op w v hop _ _ ihw ihv =>
      have hw := ihw n
      rw [l.operand_due] at hw
      have hjoins := step_joins ((joins_iff op.kind).mpr ⟨l, hop⟩) n
      rw [Phrase.due, foldlM_cons_of_some hjoins, foldlM_append_of_some hw]
      exact ihv n
  | @apply op w e hop _ ih =>
      have hs : step ⟨n, true⟩ op = some ⟨n, true⟩ := by
        rw [step_due, Window.start_of_operator hop]
      exact (foldlM_cons_of_some hs w).trans (ih n)
  | operand _ ih => exact ih n
  | number hk => exact foldlM_literal (by simp [literalKinds, hk]) n
  | string hk => exact foldlM_literal (by simp [literalKinds, hk]) n
  | true hk => exact foldlM_literal (by simp [literalKinds, hk]) n
  | false hk => exact foldlM_literal (by simp [literalKinds, hk]) n
  | nil hk => exact foldlM_literal (by simp [literalKinds, hk]) n
  | @group opening closing w e hopen _ hclose ih =>
      have hs : step ⟨n, true⟩ opening = some ⟨n + 1, true⟩ := by
        rw [step_due]
        simp only [start, hopen]
      have hc : [closing].foldlM step ⟨n + 1, false⟩ = some ⟨n, false⟩ := by
        rw [foldlM_singleton, step_closing hclose]
      exact (foldlM_cons_of_some hs _).trans ((foldlM_append_of_some (ih (n + 1)) _).trans hc)

theorem foldlM_of_expression {w : List Token} {e : Expr} (h : Derives .expression w e) :
    w.foldlM step outset = some settled :=
  foldlM_of_derives h 0

/-- A reader of a phrase on at most `k` tokens: it stops in front of whatever
cannot continue the phrase, and fails only where a token is refused. -/
structure Follows (k : Nat) (p : Phrase) (r : Reader Expr) : Prop where
  trims : Trims r
  sound : Sound p r
  ends : ∀ {ts e rest}, ts.length ≤ k → r ts = .ok (e, rest) → p.EndsBefore rest
  halts : ∀ {ts x}, ts.length ≤ k → r ts = .error x → ∀ n, Halts ⟨n, true⟩ ts x

theorem Level.eq_of_rank_eq {l l' : Level} (h : l.rank = l'.rank) : l = l' := by
  cases l <;> cases l' <;> simp [Level.rank] at h ⊢

theorem Phrase.unary_endsBefore (rest : List Token) : Phrase.unary.EndsBefore rest := by
  intro t _ l hl
  cases l <;> simp [Phrase.rank, Level.rank] at hl

/-- Behind a group there is no operator left, so a missing parenthesis is the only
thing that can be wrong. -/
theorem closing_halts {e : Expr} {w rest : List Token} {x : Halt} (hw : Derives .expression w e)
    (hend : Phrase.expression.EndsBefore rest)
    (h : expect .rightParen .closingParen (grouping e) rest = .error x) (n : Nat) :
    Halts ⟨n + 1, true⟩ (w ++ rest) x := by
  obtain ⟨rfl, hk⟩ := expect_eq_error h
  refine Halts.append (foldlM_of_derives hw (n + 1)) (halts_here (fun _ => rfl) ?_)
  intro t ht
  obtain ⟨ts, rfl⟩ := List.head?_eq_some_iff.mp ht
  exact step_inner (joins_eq_false hend) (hk t ht) n

theorem readUnary_halts {k : Nat} {nested : Reader Expr}
    (hn : ∀ j < k, Follows j .expression nested) {ts : List Token} {x : Halt}
    (hts : ts.length ≤ k) (h : readUnary nested ts = .error x) (n : Nat) :
    Halts ⟨n, true⟩ ts x := by
  induction ts with
  | nil =>
      rw [readUnary_nil] at h
      cases h
      exact halts_here (fun _ => rfl) (by simp)
  | cons t ts ih =>
      have hlt : ts.length < k := hts
      rw [readUnary_cons] at h
      cases hs : start t with
      | operator =>
          simp only [hs] at h
          rcases andThen_eq_error h with herr | ⟨e, rest, _, hok⟩
          · exact Halts.cons (by rw [step_due, hs]) (ih (Nat.le_of_lt hlt) herr)
          · cases hok
      | value v =>
          simp only [hs] at h
          cases h
      | opening =>
          simp only [hs] at h
          have hopen : step ⟨n, true⟩ t = some ⟨n + 1, true⟩ := by rw [step_due, hs]
          refine Halts.cons hopen ?_
          have hnested := hn ts.length hlt
          rcases andThen_eq_error h with herr | ⟨e, rest, hok, hclose⟩
          · exact hnested.halts (Nat.le_refl _) herr (n + 1)
          · obtain ⟨w, rfl, hw⟩ := hnested.sound ts e rest hok
            exact closing_halts hw (hnested.ends (Nat.le_refl _) hok) hclose n
      | refused =>
          simp only [hs] at h
          cases h
          refine halts_here (fun _ => rfl) ?_
          intro u hu
          obtain rfl : t = u := by simpa using hu
          rw [step_due, hs]

theorem readUnary_follows {k : Nat} {nested : Reader Expr} (ht : Trims nested)
    (hs : Sound .expression nested) (hn : ∀ j < k, Follows j .expression nested) :
    Follows k .unary (readUnary nested) where
  trims := readUnary_trims ht
  sound := readUnary_sound hs
  ends _ _ := Phrase.unary_endsBefore _
  halts := readUnary_halts hn

/-- A chain begins where an operand ended, and goes on as long as there are
operators of its level. -/
theorem readChain_ends {k : Nat} {l : Level} {operand : Reader Expr}
    (ho : Follows k l.operand operand) {m : Nat} {ts : List Token} (hk : ts.length ≤ k)
    (hm : ts.length ≤ m) (hend : l.operand.EndsBefore ts) {left e : Expr} {rest : List Token}
    (h : readChain l operand m left ts = .ok (e, rest)) : (Phrase.level l).EndsBefore rest := by
  induction m generalizing ts left with
  | zero =>
      obtain rfl := List.length_eq_zero_iff.mp (Nat.le_zero.mp hm)
      rw [readChain_nil] at h
      cases h
      exact Phrase.endsBefore_nil _
  | succ m ih =>
      cases ts with
      | nil =>
          rw [readChain_nil] at h
          cases h
          exact Phrase.endsBefore_nil _
      | cons t ts =>
          simp only [List.length_cons] at hk hm
          cases hop : l.has t.kind with
          | true =>
              rw [readChain_of_has hop] at h
              obtain ⟨right, mid, hmid, hrest⟩ := andThen_eq_ok h
              have hle := ho.trims.length_le hmid
              exact ih (by omega) (by omega) (ho.ends (by omega) hmid) hrest
          | false =>
              rw [readChain_of_not_has hop] at h
              cases h
              -- The operators of the level itself are added to the tighter ones.
              intro u hu l' hl' hmem
              obtain rfl : t = u := by simpa using hu
              rcases Nat.lt_or_eq_of_le hl' with hlt | heq
              · refine hend t rfl l' ?_ hmem
                rw [Level.operand_rank]
                exact hlt
              · obtain rfl := Level.eq_of_rank_eq heq
                rw [← l.has_iff, hop] at hmem
                cases hmem

theorem readChain_halts {k : Nat} {l : Level} {operand : Reader Expr}
    (ho : Follows k l.operand operand) {m : Nat} {ts : List Token} (hk : ts.length ≤ k)
    {left : Expr} {x : Halt} (h : readChain l operand m left ts = .error x) (n : Nat) :
    Halts ⟨n, false⟩ ts x := by
  induction m generalizing ts left with
  | zero =>
      rw [readChain_zero] at h
      cases h
  | succ m ih =>
      cases ts with
      | nil =>
          rw [readChain_nil] at h
          cases h
      | cons t ts =>
          simp only [List.length_cons] at hk
          cases hop : l.has t.kind with
          | false =>
              rw [readChain_of_not_has hop] at h
              cases h
          | true =>
              rw [readChain_of_has hop] at h
              refine Halts.cons (step_joins ((joins_iff _).mpr ⟨l, (l.has_iff _).mp hop⟩) n) ?_
              rcases andThen_eq_error h with herr | ⟨right, rest, hok, hchain⟩
              · exact ho.halts (by omega) herr n
              · have hle := ho.trims.length_le hok
                obtain ⟨w, rfl, hw⟩ := ho.sound ts right rest hok
                have hw := foldlM_of_derives hw n
                rw [l.operand_due] at hw
                exact Halts.append hw (ih (by omega) hchain)

theorem readLevel_follows {k m : Nat} {l : Level} {operand : Reader Expr}
    (ho : Follows k l.operand operand) (hm : k ≤ m) :
    Follows k (.level l) (readLevel m l operand) where
  trims := readLevel_trims ho.trims m
  sound := readLevel_sound ho.sound m
  ends {ts e rest} hts h := by
    rw [readLevel_eq] at h
    obtain ⟨left, mid, hmid, hrest⟩ := andThen_eq_ok h
    have hle := ho.trims.length_le hmid
    exact readChain_ends ho (by omega) (by omega) (ho.ends hts hmid) hrest
  halts {ts x} hts h n := by
    rw [readLevel_eq] at h
    rcases andThen_eq_error h with herr | ⟨left, rest, hok, hchain⟩
    · exact ho.halts hts herr n
    · have hle := ho.trims.length_le hok
      obtain ⟨w, rfl, hw⟩ := ho.sound ts left rest hok
      have hw := foldlM_of_derives hw n
      rw [l.operand_due] at hw
      exact Halts.append hw (readChain_halts ho (by omega) hchain n)

theorem readWithin_follows {k m depth : Nat} (hm : k ≤ m) (hd : k < depth) :
    Follows k .expression (readWithin m depth) := by
  induction depth generalizing k with
  | zero => omega
  | succ depth ih =>
      have hu : Follows k .unary (readUnary (readWithin m depth)) :=
        readUnary_follows (readWithin_trims m depth) (readWithin_sound m depth)
          fun j hj => ih (by omega) (by omega)
      have hf : Follows k (.level .factor) _ := readLevel_follows hu hm
      have ht : Follows k (.level .term) _ := readLevel_follows hf hm
      have hc : Follows k (.level .comparison) _ := readLevel_follows ht hm
      have he : Follows k (.level .equality) _ := readLevel_follows hc hm
      exact he

theorem read_ends {ts rest : List Token} {e : Expr} (h : read ts = .ok (e, rest)) :
    Phrase.expression.EndsBefore rest :=
  (readWithin_follows (Nat.le_refl _) (Nat.lt_succ_self _)).ends (Nat.le_refl _) h

theorem read_halts {ts : List Token} {x : Halt} (h : read ts = .error x) :
    Halts outset ts x :=
  (readWithin_follows (Nat.le_refl _) (Nat.lt_succ_self _)).halts (Nat.le_refl _) h 0

/-- An expression was read and the token behind it cannot continue it. -/
theorem read_settles {ts rest : List Token} {e : Expr} (h : read ts = .ok (e, rest)) :
    ∃ w, ts = w ++ rest ∧ w.foldlM step outset = some settled ∧
      ∀ t ∈ rest.head?, settled.step t = none := by
  obtain ⟨w, rfl, hw⟩ := read_sound ts e rest h
  refine ⟨w, rfl, foldlM_of_expression hw, ?_⟩
  intro t ht
  obtain ⟨us, rfl⟩ := List.head?_eq_some_iff.mp ht
  exact step_settled (joins_eq_false (read_ends h))

theorem readAll_halts {ts : List Token} {x : Halt} (h : readAll ts = .error x) :
    ∃ u q, ts = u ++ x.rest ∧ u.foldlM step outset = some q ∧
      q.expected .endOfExpression = x.expected ∧ ∀ t ∈ x.rest.head?, q.step t = none := by
  rw [readAll_eq] at h
  cases hr : read ts with
  | error y =>
      simp only [hr, Except.error.injEq] at h
      subst h
      obtain ⟨u, q, hts, hu, hexpected, hrefused⟩ := read_halts hr
      exact ⟨u, q, hts, hu, hexpected _, hrefused⟩
  | ok y =>
      obtain ⟨e, rest⟩ := y
      cases rest with
      | nil => simp [hr] at h
      | cons t rest =>
          simp only [hr, Except.error.injEq] at h
          subst h
          obtain ⟨w, hts, hw, hrefused⟩ := read_settles hr
          exact ⟨w, settled, hts, hw, rfl, hrefused⟩

/-- The grammar derives the tokens behind which nothing is pending. -/
theorem derives_iff (w : List Token) :
    (∃ e, Derives .expression w e) ↔ w.foldlM step outset = some settled := by
  constructor
  · rintro ⟨e, he⟩
    exact foldlM_of_expression he
  · intro h
    -- No token is refused, so a reader has nothing to stop at but the end.
    have atEnd {u rest : List Token} {q : Pending} (hw : w = u ++ rest)
        (hu : u.foldlM step outset = some q) (hrefused : ∀ t ∈ rest.head?, q.step t = none) :
        rest = [] ∧ q = settled := by
      subst hw
      rw [foldlM_append_of_some hu] at h
      cases rest with
      | nil => exact ⟨rfl, Option.some.inj h⟩
      | cons t rest =>
          rw [foldlM_cons_of_none (hrefused t rfl)] at h
          cases h
    cases hr : read w with
    | error x =>
        obtain ⟨u, q, hw, hu, hexpected, hrefused⟩ := read_halts hr
        obtain ⟨_, rfl⟩ := atEnd hw hu hrefused
        have absurd_end := (hexpected .endOfExpression).trans (hexpected .operand).symm
        cases absurd_end
    | ok x =>
        obtain ⟨e, rest⟩ := x
        obtain ⟨u, hw, hu, hrefused⟩ := read_settles hr
        obtain ⟨rfl, _⟩ := atEnd hw hu hrefused
        obtain ⟨v, hv, hd⟩ := read_sound w e [] hr
        rw [List.append_nil] at hv
        exact ⟨e, hv ▸ hd⟩

end Expr

namespace Stmt
open Reader

/-- What is pending inside of a statement. -/
inductive Pending where
  /-- Nothing has been read. -/
  | beginning
  /-- Behind `print` or not, with `q` pending in the expression. -/
  | inside (printing : Bool) (q : Expr.Pending)
  /-- Behind the semicolon. -/
  | complete
  deriving DecidableEq

namespace Pending

/-- What is pending behind one more token, unless it is refused. -/
def step : Pending → Token → Option Pending
  | beginning, t =>
      match Expr.Pending.outset.step t with
      | some q => some (inside false q)
      | none => if t.kind = .printWord then some (inside true .outset) else none
  | inside printing q, t =>
      match q.step t with
      | some q' => some (inside printing q')
      | none => if t.kind = .semicolon ∧ q = .settled then some complete else none
  | complete, _ => none

theorem step_print {t : Token} (h : t.kind = .printWord) :
    beginning.step t = some (inside true .outset) := by
  have hrefused : Expr.Pending.outset.step t = none := by
    rw [Expr.Pending.outset, Expr.Pending.step_due]
    simp only [Expr.start, h]
  simp only [step, hrefused, h, if_true]

theorem step_semicolon {t : Token} (h : t.kind = .semicolon) (printing : Bool) :
    (inside printing .settled).step t = some complete := by
  have hrefused : Expr.Pending.settled.step t = none :=
    Expr.Pending.step_settled (by rw [h]; rfl)
  simp only [step, hrefused, h, true_and, if_true]

theorem step_inside {q q' : Expr.Pending} {t : Token} (h : q.step t = some q')
    (printing : Bool) : (inside printing q).step t = some (inside printing q') := by
  simp only [step, h]

theorem step_eof {t : Token} (h : t.kind = .eof) (q : Pending) : q.step t = none := by
  cases q with
  | beginning => simp [step, Expr.Pending.step_eof h, h]
  | inside printing q => simp [step, Expr.Pending.step_eof h, h]
  | complete => rfl

/-- Nothing stands behind the semicolon of a statement. -/
theorem eq_nil_of_foldlM_complete {q : Pending} {w : List Token}
    (h : w.foldlM step complete = some q) : w = [] := by
  cases w with
  | nil => rfl
  | cons t w =>
      have hnone : complete.step t = none := rfl
      rw [foldlM_cons_of_none hnone] at h
      cases h

theorem foldlM_inside {q q' : Expr.Pending} {w : List Token}
    (h : w.foldlM Expr.Pending.step q = some q') (printing : Bool) :
    w.foldlM step (inside printing q) = some (inside printing q') := by
  induction w generalizing q with
  | nil =>
      cases h
      rfl
  | cons t w ih =>
      cases ht : q.step t with
      | none =>
          rw [foldlM_cons_of_none ht] at h
          cases h
      | some mid =>
          rw [foldlM_cons_of_some ht] at h
          rw [foldlM_cons_of_some (step_inside ht printing)]
          exact ih h

theorem step_beginning {q : Pending} {t : Token} (h : (inside false .outset).step t = some q) :
    beginning.step t = some q := by
  cases hs : Expr.Pending.outset.step t with
  | some q' => simpa only [step, hs] using h
  | none =>
      have hne : Expr.Pending.outset ≠ .settled := by decide
      simp only [step, hs, hne, and_false, if_false, reduceCtorEq] at h

/-- A statement without a keyword is an expression from its first token on. -/
theorem foldlM_beginning {q : Pending} {t : Token} {w : List Token}
    (h : (t :: w).foldlM step (inside false .outset) = some q) :
    (t :: w).foldlM step beginning = some q := by
  obtain ⟨mid, ht, hw⟩ := exists_foldlM_of_append (u := [t]) h
  rw [foldlM_singleton] at ht
  rwa [foldlM_cons_of_some (step_beginning ht)]

/-- What a statement lacks where its expression could end. -/
def missing : Bool → Expectation
  | true => .semicolonAfterValue
  | false => .semicolonAfterExpression

/-- What has to come next. -/
def expected : Pending → Option Expectation
  | beginning => some .operand
  | inside printing q => some (q.expected (missing printing))
  | complete => none

/-- The tokens in front of `x.rest` leave pending what was expected, and the token
behind them is refused. -/
def Halts (q₀ : Pending) (ts : List Token) (x : Halt) : Prop :=
  ∃ u q, ts = u ++ x.rest ∧ u.foldlM step q₀ = some q ∧
    q.expected = some x.expected ∧ ∀ t ∈ x.rest.head?, q.step t = none

theorem Halts.cons {q₀ q₁ : Pending} {t : Token} {ts : List Token} {x : Halt}
    (ht : q₀.step t = some q₁) (h : Halts q₁ ts x) : Halts q₀ (t :: ts) x := by
  obtain ⟨u, q, rfl, hu, hexpected, hrefused⟩ := h
  exact ⟨t :: u, q, rfl, (foldlM_cons_of_some ht u).trans hu, hexpected, hrefused⟩

end Pending

open Pending

/-- Statements, with or without a keyword, are alike from their expression on. -/
theorem closed_halts (printing : Bool) {f : Expr → Stmt} {ts : List Token} {x : Halt}
    (h : andThen Expr.read (fun e => expect .semicolon (missing printing) (f e)) ts = .error x) :
    Halts (inside printing .outset) ts x := by
  rcases andThen_eq_error h with herr | ⟨e, rest, hok, hclose⟩
  · obtain ⟨u, q, hts, hu, hexpected, hrefused⟩ := Expr.read_halts herr
    refine ⟨u, inside printing q, hts, foldlM_inside hu printing, congrArg some (hexpected _), ?_⟩
    intro t ht
    have hne : q ≠ .settled := by
      rintro rfl
      have absurd_end := (hexpected .endOfExpression).trans (hexpected .operand).symm
      cases absurd_end
    simp only [step, hrefused t ht, hne, and_false, if_false]
  · obtain ⟨rfl, hk⟩ := expect_eq_error hclose
    obtain ⟨w, hts, hw, hrefused⟩ := Expr.read_settles hok
    refine ⟨w, inside printing .settled, hts, foldlM_inside hw printing, rfl, ?_⟩
    intro t ht
    simp only [step, hrefused t ht, hk t ht, false_and, if_false]

theorem read_halts {ts : List Token} {x : Halt} (h : read ts = .error x) :
    Halts beginning ts x := by
  by_cases hp : ∃ t ∈ ts.head?, t.kind = .printWord
  · obtain ⟨t, ht, hk⟩ := hp
    obtain ⟨us, rfl⟩ := List.head?_eq_some_iff.mp ht
    rw [read_of_print hk, readPrint_eq] at h
    exact Halts.cons (step_print hk) (closed_halts true h)
  · have hnot : ∀ t ∈ ts.head?, t.kind ≠ .printWord := fun t ht hk => hp ⟨t, ht, hk⟩
    rw [read_of_not_print hnot, readExpression_eq] at h
    obtain ⟨u, q, rfl, hu, hexpected, hrefused⟩ := closed_halts false h
    cases u with
    | nil =>
        cases hu
        refine ⟨[], beginning, rfl, rfl, hexpected, ?_⟩
        intro t ht
        have hinside := hrefused t ht
        cases hs : Expr.Pending.outset.step t with
        | some q' =>
            rw [step_inside hs] at hinside
            cases hinside
        | none =>
            have hne := hnot t (by simpa using ht)
            simp only [step, hs, if_neg hne]
    | cons t u => exact ⟨t :: u, q, rfl, foldlM_beginning hu, hexpected, hrefused⟩

/-- A statement leaves nothing pending. -/
theorem foldlM_of_derives {w : List Token} {s : Stmt} (h : Derives w s) :
    w.foldlM step beginning = some complete := by
  have closed (printing : Bool) {v : List Token} {e : Expr} {semicolon : Token}
      (hv : Expr.Derives .expression v e) (hk : semicolon.kind = .semicolon) :
      (v ++ [semicolon]).foldlM step (inside printing .outset) = some complete := by
    rw [foldlM_append_of_some (foldlM_inside (Expr.foldlM_of_expression hv) printing),
      foldlM_singleton]
    exact step_semicolon hk printing
  cases h with
  | print hword hv hsemi =>
      exact (foldlM_cons_of_some (step_print hword) _).trans (closed true hv hsemi)
  | @expression semicolon v e hv hsemi =>
      have hclosed := closed false hv hsemi
      cases v with
      | nil => exact foldlM_beginning hclosed
      | cons t v => exact foldlM_beginning hclosed

/-- The grammar derives the tokens behind which nothing is pending. -/
theorem derives_iff (w : List Token) :
    (∃ s, Derives w s) ↔ w.foldlM step beginning = some complete := by
  constructor
  · rintro ⟨s, hs⟩
    exact foldlM_of_derives hs
  · intro h
    cases hr : read w with
    | error x =>
        obtain ⟨u, q, rfl, hu, hexpected, hrefused⟩ := read_halts hr
        rw [foldlM_append_of_some hu] at h
        cases hrest : x.rest with
        | nil =>
            rw [hrest] at h
            obtain rfl : q = complete := Option.some.inj h
            cases hexpected
        | cons t rest =>
            rw [hrest, foldlM_cons_of_none (hrefused t (by rw [hrest]; rfl))] at h
            cases h
    | ok x =>
        obtain ⟨s, rest⟩ := x
        obtain ⟨u, rfl, hu⟩ := read_sound hr
        rw [foldlM_append_of_some (foldlM_of_derives hu)] at h
        obtain rfl := eq_nil_of_foldlM_complete h
        exact ⟨s, by rwa [List.append_nil]⟩

end Stmt

end Lox

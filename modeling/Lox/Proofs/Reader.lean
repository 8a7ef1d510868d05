import Lox.Proofs.Grammar

/-!
# Readers in sequence

Every reader of expressions and statements is a short sequence of simpler ones,
so what holds of all of them is proved once for two readers in a row. Three
things hold of every reader: what it leaves stood at the end of its tokens,
whether it succeeded or not; a reader of expressions that succeeds takes at
least one token; and the bounds on nesting and on chains make no difference,
once both cover the number of tokens.
-/
namespace Lox

namespace Reader
variable {α β : Type}

/-- One reader behind another, which may depend on what the first has read. -/
def andThen (r : Reader α) (k : α → Reader β) : Reader β := fun ts =>
  match r ts with
  | .ok (a, rest) => k a rest
  | .error h => .error h

theorem andThen_of_ok {r : Reader α} {ts rest : List Token} {a : α} (h : r ts = .ok (a, rest))
    (k : α → Reader β) : andThen r k ts = k a rest := by
  simp only [andThen, h]

theorem andThen_of_error {r : Reader α} {ts : List Token} {x : Halt} (h : r ts = .error x)
    (k : α → Reader β) : andThen r k ts = .error x := by
  simp only [andThen, h]

theorem andThen_eq_ok {r : Reader α} {k : α → Reader β} {ts : List Token} {x : β × List Token}
    (h : andThen r k ts = .ok x) : ∃ a rest, r ts = .ok (a, rest) ∧ k a rest = .ok x := by
  cases hr : r ts with
  | error y => rw [andThen_of_error hr] at h; cases h
  | ok y => exact ⟨y.1, y.2, rfl, by rwa [andThen_of_ok hr] at h⟩

/-- The tokens in front of which a reader came to a stop, with or without success. -/
def remaining : Except Halt (α × List Token) → List Token
  | .ok (_, rest) => rest
  | .error h => h.rest

/-- A reader that takes tokens off the front and does nothing else to them. -/
def Trims (r : Reader α) : Prop := ∀ ts, remaining (r ts) <:+ ts

/-- A reader that takes at least one token if it succeeds. -/
def Advances (r : Reader α) : Prop :=
  ∀ ts a rest, r ts = .ok (a, rest) → rest.length < ts.length

theorem Trims.length_le {r : Reader α} (h : Trims r) {ts rest : List Token} {a : α}
    (hr : r ts = .ok (a, rest)) : rest.length ≤ ts.length := by
  have hs := h ts
  rw [hr] at hs
  exact hs.length_le

theorem andThen_trims_at {r : Reader α} {k : α → Reader β} {ts : List Token}
    (hr : remaining (r ts) <:+ ts) (hk : ∀ a, Trims (k a)) : remaining (andThen r k ts) <:+ ts := by
  cases h : r ts with
  | error x =>
      rw [andThen_of_error h]
      simpa only [h, remaining] using hr
  | ok x =>
      rw [andThen_of_ok h]
      rw [h] at hr
      exact (hk x.1 x.2).trans hr

theorem andThen_trims {r : Reader α} {k : α → Reader β} (hr : Trims r) (hk : ∀ a, Trims (k a)) :
    Trims (andThen r k) :=
  fun ts => andThen_trims_at (hr ts) hk

theorem andThen_advances {r : Reader α} {k : α → Reader β} (hr : Trims r)
    (hk : ∀ a, Advances (k a)) : Advances (andThen r k) := by
  intro ts b rest h
  obtain ⟨a, mid, hmid, hrest⟩ := andThen_eq_ok h
  have h₁ := hr.length_le hmid
  have h₂ := hk a mid b rest hrest
  omega

/-- Two sequences agree on `ts` if their first readers do, and their second ones
on all that the first can leave. -/
theorem andThen_congr {r r' : Reader α} {k k' : α → Reader β} {ts : List Token}
    (hr : r ts = r' ts) (hk : ∀ a rest, r ts = .ok (a, rest) → k a rest = k' a rest) :
    andThen r k ts = andThen r' k' ts := by
  cases h : r ts with
  | error x => rw [andThen_of_error h, andThen_of_error (hr ▸ h)]
  | ok x =>
      rw [andThen_of_ok h, andThen_of_ok (hr ▸ h)]
      exact hk x.1 x.2 h

/-- Takes one token of kind `k` and gives `a` for it. -/
def expect (k : Kind) (missing : Expectation) (a : α) : Reader α :=
  Reading.expect silent k missing a

theorem expect_cons (k : Kind) (missing : Expectation) (a : α) (t : Token) (ts : List Token) :
    expect k missing a (t :: ts) =
      if t.kind = k then .ok (a, ts) else .error ⟨missing, t :: ts⟩ := rfl

theorem expect_eq_ok {k : Kind} {missing : Expectation} {a b : α} {ts rest : List Token}
    (h : expect k missing a ts = .ok (b, rest)) :
    ∃ t, ts = t :: rest ∧ t.kind = k ∧ b = a := by
  cases ts with
  | nil => cases h
  | cons t ts =>
      rw [expect_cons] at h
      split at h
      · rename_i hk
        cases h
        exact ⟨t, rfl, hk, rfl⟩
      · cases h

theorem expect_of_kind {k : Kind} {t : Token} (h : t.kind = k) (missing : Expectation) (a : α)
    (ts : List Token) : expect k missing a (t :: ts) = .ok (a, ts) := by
  rw [expect_cons, if_pos h]

theorem expect_advances (k : Kind) (missing : Expectation) (a : α) :
    Advances (expect k missing a) := by
  intro ts b rest h
  obtain ⟨t, rfl, _, _⟩ := expect_eq_ok h
  simp only [List.length_cons]
  omega

theorem expect_trims (k : Kind) (missing : Expectation) (a : α) : Trims (expect k missing a) := by
  intro ts
  cases ts with
  | nil => exact List.suffix_rfl
  | cons t ts =>
      rw [expect_cons]
      split
      · exact List.suffix_cons t ts
      · exact List.suffix_rfl

end Reader

namespace Expr
open Reader

/-- How a token can begin an operand. -/
inductive Start where
  | operator
  | value (v : Value)
  | opening
  | refused

/-- What a reader of operands makes of the first token. -/
def start (t : Token) : Start :=
  match t.kind with
  | .bang | .minus => .operator
  | .falseWord => .value (.bool false)
  | .trueWord => .value (.bool true)
  | .nilWord => .value .nil
  | .number | .string => .value t.literal
  | .leftParen => .opening
  | _ => .refused

theorem readUnary_nil (nested : Reader Expr) : readUnary nested [] = .error ⟨.operand, []⟩ := rfl

theorem readUnary_cons (nested : Reader Expr) (t : Token) (ts : List Token) :
    readUnary nested (t :: ts) =
      match start t with
      | .operator => andThen (readUnary nested) (fun e rest => .ok (unary t e, rest)) ts
      | .value v => .ok (literal v, ts)
      | .opening =>
          andThen nested (fun e => expect .rightParen .closingParen (grouping e)) ts
      | .refused => .error ⟨.operand, t :: ts⟩ := by
  unfold readUnary start andThen
  rw [Reading.unary]
  cases t.kind with
  | bang => cases Reading.unary silent nested ts <;> rfl
  | minus => cases Reading.unary silent nested ts <;> rfl
  | leftParen => cases nested ts <;> rfl
  | _ => rfl

theorem readChain_zero (l : Level) (operand : Reader Expr) (left : Expr) (ts : List Token) :
    readChain l operand 0 left ts = .ok (left, ts) := rfl

theorem readChain_nil (l : Level) (operand : Reader Expr) (n : Nat) (left : Expr) :
    readChain l operand n left [] = .ok (left, []) := by
  cases n <;> rfl

theorem readChain_of_has {l : Level} {t : Token} (h : l.has t.kind = true)
    (operand : Reader Expr) (n : Nat) (left : Expr) (ts : List Token) :
    readChain l operand (n + 1) left (t :: ts) =
      andThen operand (fun right => readChain l operand n (binary left t right)) ts := by
  unfold readChain andThen
  rw [Reading.chain, if_pos h]
  cases operand ts <;> rfl

theorem readChain_of_not_has {l : Level} {t : Token} (h : l.has t.kind = false)
    (operand : Reader Expr) (n : Nat) (left : Expr) (ts : List Token) :
    readChain l operand n left (t :: ts) = .ok (left, t :: ts) := by
  cases n with
  | zero => rfl
  | succ n =>
      unfold readChain
      rw [Reading.chain, if_neg (by simp [h])]
      rfl

theorem readLevel_eq (n : Nat) (l : Level) (operand : Reader Expr) :
    readLevel n l operand = andThen operand (readChain l operand n) := by
  funext ts
  unfold readLevel andThen
  rw [Reading.level]
  cases operand ts <;> rfl

theorem readWithin_zero (n : Nat) (ts : List Token) :
    readWithin n 0 ts = .error ⟨.operand, ts⟩ := rfl

theorem read_eq (ts : List Token) : read ts = readWithin ts.length (ts.length + 1) ts := rfl

theorem readOnly_eq : readOnly =
    andThen read fun e rest =>
      match rest with
      | [] => .ok (e, [])
      | t :: ts => .error ⟨.endOfExpression, t :: ts⟩ := by
  funext ts
  unfold readOnly Reading.onlyExpression andThen read
  rcases Reading.expression silent ts with _ | ⟨e, _ | _⟩ <;> rfl

theorem readAll_eq (ts : List Token) :
    readAll ts =
      match read ts with
      | .ok (e, []) => .ok e
      | .ok (_, t :: rest) => .error ⟨.endOfExpression, t :: rest⟩
      | .error h => .error h := by
  rw [readAll, readOnly_eq, andThen]
  rcases read ts with _ | ⟨e, _ | _⟩ <;> rfl

/-- What readers of operands and of levels inherit from the readers they are
built from holds of every reader of expressions. -/
theorem readWithin_induct {P : Phrase → Reader Expr → Prop} {n : Nat}
    (zero : P .expression (readWithin n 0))
    (unary : ∀ nested, P .expression nested → P .unary (readUnary nested))
    (level : ∀ l operand, P l.operand operand → P (.level l) (readLevel n l operand))
    (depth : Nat) : P .expression (readWithin n depth) := by
  induction depth with
  | zero => exact zero
  | succ depth ih =>
      have hu := unary _ ih
      have hf := level .factor _ hu
      have ht := level .term _ hf
      have hc := level .comparison _ ht
      have he := level .equality _ hc
      exact he

theorem readUnary_trims {nested : Reader Expr} (hn : Trims nested) : Trims (readUnary nested) := by
  intro ts
  induction ts with
  | nil =>
      rw [readUnary_nil]
      exact List.suffix_rfl
  | cons t ts ih =>
      have weaken {us : List Token} (h : us <:+ ts) : us <:+ t :: ts :=
        h.trans (List.suffix_cons t ts)
      rw [readUnary_cons]
      cases start t with
      | operator => exact weaken (andThen_trims_at ih fun e us => List.suffix_rfl)
      | value v => exact List.suffix_cons t ts
      | opening => exact weaken (andThen_trims hn (fun e => expect_trims _ _ _) ts)
      | refused => exact List.suffix_rfl

theorem readChain_trims {l : Level} {operand : Reader Expr} (ho : Trims operand) (n : Nat)
    (left : Expr) : Trims (readChain l operand n left) := by
  induction n generalizing left with
  | zero =>
      intro ts
      rw [readChain_zero]
      exact List.suffix_rfl
  | succ n ih =>
      intro ts
      cases ts with
      | nil =>
          rw [readChain_nil]
          exact List.suffix_rfl
      | cons t ts =>
          cases h : l.has t.kind with
          | false =>
              rw [readChain_of_not_has h]
              exact List.suffix_rfl
          | true =>
              rw [readChain_of_has h]
              exact (andThen_trims ho (fun right => ih _) ts).trans (List.suffix_cons t ts)

theorem readLevel_trims {l : Level} {operand : Reader Expr} (ho : Trims operand) (n : Nat) :
    Trims (readLevel n l operand) := by
  rw [readLevel_eq]
  exact andThen_trims ho fun left => readChain_trims ho n left

theorem readWithin_trims (n depth : Nat) : Trims (readWithin n depth) := by
  refine readWithin_induct (P := fun _ r => Trims r) ?_ ?_ ?_ depth
  · intro ts
    rw [readWithin_zero]
    exact List.suffix_rfl
  · intro nested hn
    exact readUnary_trims hn
  · intro l operand ho
    exact readLevel_trims ho n

/-- Readers that cannot be told apart on lists of at most `k` tokens. -/
def Agree (k : Nat) (r r' : Reader Expr) : Prop := ∀ ts, ts.length ≤ k → r ts = r' ts

theorem readUnary_agree {nested nested' : Reader Expr} {k : Nat}
    (hn : ∀ j < k, Agree j nested nested') : Agree k (readUnary nested) (readUnary nested') := by
  intro ts
  induction ts with
  | nil =>
      intro _
      rw [readUnary_nil, readUnary_nil]
  | cons t ts ih =>
      intro hts
      have hlt : ts.length < k := hts
      rw [readUnary_cons, readUnary_cons]
      cases start t with
      | operator => exact andThen_congr (ih (Nat.le_of_lt hlt)) fun _ _ _ => rfl
      | value v => rfl
      | opening => exact andThen_congr (hn ts.length hlt ts (Nat.le_refl _)) fun _ _ _ => rfl
      | refused => rfl

theorem readChain_agree {l : Level} {operand operand' : Reader Expr} {k : Nat}
    (ho : Agree k operand operand') (ht : Trims operand) {n n' : Nat} {ts : List Token}
    (hk : ts.length ≤ k) (hn : ts.length ≤ n) (hn' : ts.length ≤ n') (left : Expr) :
    readChain l operand n left ts = readChain l operand' n' left ts := by
  induction n generalizing n' ts left with
  | zero =>
      obtain rfl := List.length_eq_zero_iff.mp (Nat.le_zero.mp hn)
      rw [readChain_nil, readChain_nil]
  | succ n ih =>
      cases ts with
      | nil => rw [readChain_nil, readChain_nil]
      | cons t ts =>
          cases h : l.has t.kind with
          | false => rw [readChain_of_not_has h, readChain_of_not_has h]
          | true =>
              simp only [List.length_cons] at hk hn hn'
              obtain ⟨m, rfl⟩ : ∃ m, n' = m + 1 := ⟨n' - 1, by omega⟩
              rw [readChain_of_has h, readChain_of_has h]
              refine andThen_congr (ho ts (by omega)) fun right rest hr => ?_
              have hle := ht.length_le hr
              exact ih (by omega) (by omega) (by omega) _

theorem readLevel_agree {l : Level} {operand operand' : Reader Expr} {k n n' : Nat}
    (ho : Agree k operand operand') (ht : Trims operand) (hn : k ≤ n) (hn' : k ≤ n') :
    Agree k (readLevel n l operand) (readLevel n' l operand') := by
  intro ts hts
  rw [readLevel_eq, readLevel_eq]
  refine andThen_congr (ho ts hts) fun left rest hr => ?_
  have hle := ht.length_le hr
  exact readChain_agree ho ht (by omega) (by omega) (by omega) left

/-- Bounds that cover the number of tokens make no difference. -/
theorem readWithin_agree {k n n' depth depth' : Nat} (hn : k ≤ n) (hn' : k ≤ n')
    (hd : k < depth) (hd' : k < depth') : Agree k (readWithin n depth) (readWithin n' depth') := by
  induction depth generalizing k depth' with
  | zero => omega
  | succ depth ih =>
      obtain ⟨m, rfl⟩ : ∃ m, depth' = m + 1 := ⟨depth' - 1, by omega⟩
      have tu := readUnary_trims (readWithin_trims n depth)
      have tf := readLevel_trims (l := .factor) tu n
      have tt := readLevel_trims (l := .term) tf n
      have tc := readLevel_trims (l := .comparison) tt n
      have hu : Agree k (readUnary (readWithin n depth)) (readUnary (readWithin n' m)) :=
        readUnary_agree fun j hj => ih (by omega) (by omega) (by omega) (by omega)
      have hf := readLevel_agree (l := .factor) hu tu hn hn'
      have ht := readLevel_agree (l := .term) hf tf hn hn'
      have hc := readLevel_agree (l := .comparison) ht tt hn hn'
      have he := readLevel_agree (l := .equality) hc tc hn hn'
      exact he

theorem readWithin_eq_read {n depth : Nat} {ts : List Token} (hn : ts.length ≤ n)
    (hd : ts.length < depth) : readWithin n depth ts = read ts :=
  readWithin_agree hn (Nat.le_refl _) hd (Nat.lt_succ_self _) ts (Nat.le_refl _)

theorem read_trims : Trims read :=
  fun ts => readWithin_trims ts.length (ts.length + 1) ts

theorem readLevel_of_error {operand : Reader Expr} {ts : List Token} {x : Halt}
    (h : operand ts = .error x) (n : Nat) (l : Level) : readLevel n l operand ts = .error x := by
  rw [readLevel_eq, andThen_of_error h]

/-- An expression cannot begin with a token that begins no operand. -/
theorem read_of_refused {t : Token} (h : start t = .refused) (ts : List Token) :
    read (t :: ts) = .error ⟨.operand, t :: ts⟩ := by
  have hu : readUnary (readWithin (t :: ts).length (t :: ts).length) (t :: ts) =
      .error ⟨.operand, t :: ts⟩ := by rw [readUnary_cons, h]
  have hf := readLevel_of_error hu (t :: ts).length .factor
  have ht := readLevel_of_error hf (t :: ts).length .term
  have hc := readLevel_of_error ht (t :: ts).length .comparison
  exact readLevel_of_error hc (t :: ts).length .equality

end Expr

namespace Stmt
open Reader

theorem closed_eq (missing : Expectation) (f : Expr → Stmt) :
    Reading.closed silent missing f =
      andThen Expr.read fun e => expect .semicolon missing (f e) := by
  funext ts
  unfold Reading.closed andThen Expr.read
  cases Reading.expression silent ts <;> rfl

theorem readPrint_eq : readPrint =
    andThen Expr.read fun e => expect .semicolon .semicolonAfterValue (print e) :=
  closed_eq _ _

theorem readExpression_eq : readExpression =
    andThen Expr.read fun e => expect .semicolon .semicolonAfterExpression (expression e) :=
  closed_eq _ _

theorem read_cons (t : Token) (ts : List Token) :
    read (t :: ts) = if t.kind = .printWord then readPrint ts else readExpression (t :: ts) := rfl

theorem readPrint_trims : Trims readPrint := by
  rw [readPrint_eq]
  exact andThen_trims Expr.read_trims fun e => expect_trims _ _ _

theorem readExpression_trims : Trims readExpression := by
  rw [readExpression_eq]
  exact andThen_trims Expr.read_trims fun e => expect_trims _ _ _

theorem readPrint_advances : Advances readPrint := by
  rw [readPrint_eq]
  exact andThen_advances Expr.read_trims fun e => expect_advances _ _ _

theorem readExpression_advances : Advances readExpression := by
  rw [readExpression_eq]
  exact andThen_advances Expr.read_trims fun e => expect_advances _ _ _

theorem read_of_print {t : Token} (h : t.kind = .printWord) (ts : List Token) :
    read (t :: ts) = readPrint ts := by
  rw [read_cons, if_pos h]

theorem read_of_not_print {ts : List Token} (h : ∀ t ∈ ts.head?, t.kind ≠ .printWord) :
    read ts = readExpression ts := by
  cases ts with
  | nil => rfl
  | cons t ts => rw [read_cons, if_neg (h t rfl)]

theorem read_trims : Trims read := by
  intro ts
  cases ts with
  | nil => exact readExpression_trims []
  | cons t ts =>
      rw [read_cons]
      split
      · exact (readPrint_trims ts).trans (List.suffix_cons t ts)
      · exact readExpression_trims (t :: ts)

/-- A statement takes at least one token, its semicolon. -/
theorem read_advances : Advances read := by
  intro ts s rest h
  cases ts with
  | nil => exact readExpression_advances [] s rest h
  | cons t ts =>
      rw [read_cons] at h
      split at h
      · have hlt := readPrint_advances ts s rest h
        simp only [List.length_cons]
        omega
      · exact readExpression_advances (t :: ts) s rest h

end Stmt

end Lox

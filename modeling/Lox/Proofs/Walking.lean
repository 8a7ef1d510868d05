import Lox.Proofs.Recovery

/-!
# Reading by walking

The readers take a list apart from its front. The same can be done by walking: the
tokens stay where they are, an index says which of them comes next, and the token
in front of that index is looked at again where its kind or its literal is needed.
How a token is looked at and how the index is moved is a matter of gait. All else is
the same in every gait, and is written once for all of them.

The gait of this module has a window, and comes to nothing if it looks at a token
outside of it. A walk whose window opens where it begins never looks outside, and
gives what reading gives. What stands in front of its first token or behind the first
end token plays no part in it, also where it looks back to recover from an error.
-/
namespace Lox

/-- A reader that begins at an index of some tokens stops at an index of them. -/
theorem Reader.Trims.stops_at {α : Type} {r : Reader α} (h : Reader.Trims r) {w : List Token}
    {a : Nat} (ha : a ≤ w.length) :
    (∃ x q, a ≤ q ∧ q ≤ w.length ∧ r (w.drop a) = .ok (x, w.drop q)) ∨
      ∃ expected q, a ≤ q ∧ q ≤ w.length ∧ r (w.drop a) = .error ⟨expected, w.drop q⟩ := by
  obtain ⟨q, haq, hq, hrest⟩ := Segment.exists_drop_of_suffix (h (w.drop a)) ha
  cases hr : r (w.drop a) with
  | ok y =>
      obtain ⟨x, rest⟩ := y
      rw [hr] at hrest
      obtain rfl : rest = w.drop q := hrest
      exact .inl ⟨x, q, haq, hq, rfl⟩
  | error y =>
      obtain ⟨expected, rest⟩ := y
      rw [hr] at hrest
      obtain rfl : rest = w.drop q := hrest
      exact .inr ⟨expected, q, haq, hq, rfl⟩

/-- Why a walk stops short. -/
inductive Stop where
  /-- A token was looked at that cannot be seen. -/
  | outside
  /-- The walk took more steps than it was given. -/
  | endless
  /-- A syntax error, found with the walk at an index. -/
  | halt (e : SyntaxError) (pos : Nat)

/-- What is done with an index. -/
inductive Act where
  /-- The next token was looked at. -/
  | look
  /-- The token in front of the next one was looked at. -/
  | lookBack
  | move
  /-- A phrase was found that begins at `start`. -/
  | found (p : Expr.Phrase) (start : Nat)
  /-- A statement that begins at `start` was read or given up. -/
  | turn (start : Nat)
  /-- A call made at `start` was answered. -/
  | called (start : Nat)
  | rewound

/-- How walks go in `m`. Each begins and ends at an index. -/
structure Gait (m : Type → Type) where
  /-- The next token. -/
  peek : m Token
  /-- The token in front of the next one. -/
  previous : m Token
  forward : m Unit
  rewind : m Unit
  position : m Nat
  stop {α : Type} : Stop → m α
  /-- Goes on behind a syntax error, from where it was found. -/
  rescue {α β : Type} : m α → (α → β) → (SyntaxError → m β) → m β
  /-- Leaves a mark behind a walk that succeeds, in a gait that leaves marks. It may tell
  where the walk began. -/
  noting {α : Type} : (Nat → Act) → m α → m α

namespace Gait
variable {m : Type → Type} [Monad m] (g : Gait m)

def atEnd : m Bool := do
  return (← g.peek).kind = .eof

/-- One step, unless the walk is at the end. -/
def advance : m Token := do
  if ← g.atEnd then g.previous
  else
    g.forward
    g.previous

def check (k : Kind) : m Bool := do
  if ← g.atEnd then return false
  else return (← g.peek).kind = k

/-- Steps over a token of one of these kinds, if it is next. -/
def accept : List Kind → m Bool
  | [] => return false
  | k :: ks => do
      if ← g.check k then
        let _ ← g.advance
        return true
      else accept ks

def fail {α : Type} (expected : Expectation) : m α := do
  g.stop (.halt ⟨expected, ← g.peek⟩ (← g.position))

def consume (k : Kind) (missing : Expectation) : m Unit := do
  if ← g.check k then
    let _ ← g.advance
    return ()
  else g.fail missing

def primary (nested : m Expr) : m Expr := do
  if ← g.accept [.falseWord] then return .literal (.bool false)
  else if ← g.accept [.trueWord] then return .literal (.bool true)
  else if ← g.accept [.nilWord] then return .literal .nil
  else if ← g.accept [.number, .string] then return .literal (← g.previous).literal
  else if ← g.accept [.leftParen] then
    let e ← nested
    g.consume .rightParen .closingParen
    return .grouping e
  else g.fail .operand

def unary (nested : m Expr) : Nat → m Expr
  | 0 => g.stop .endless
  | n + 1 => g.noting (.found .unary) do
      if ← g.accept [.bang, .minus] then
        let op ← g.previous
        let e ← unary nested n
        return .unary op e
      else g.primary nested

def chain (l : Expr.Level) (operand : m Expr) : Nat → Expr → m Expr
  | 0, _ => g.stop .endless
  | n + 1, left => do
      if ← g.accept l.operators then
        let op ← g.previous
        let right ← operand
        chain l operand n (.binary left op right)
      else return left

def level (n : Nat) (l : Expr.Level) (operand : m Expr) : m Expr :=
  g.noting (.found (.level l)) do
    let left ← operand
    g.chain l operand n left

/-- An expression. As in reading, `n` bounds the operators in a row and the other
number the depth of the parentheses. -/
def expression (n : Nat) : Nat → m Expr
  | 0 => g.stop .endless
  | depth + 1 =>
      g.level n .equality
        (g.level n .comparison
          (g.level n .term
            (g.level n .factor (g.unary (expression n depth) n))))

def statement (n : Nat) : m Stmt := do
  if ← g.accept [.printWord] then
    let e ← g.expression n n
    g.consume .semicolon .semicolonAfterValue
    return .print e
  else
    let e ← g.expression n n
    g.consume .semicolon .semicolonAfterExpression
    return .expression e

/-- Goes on to a place behind a semicolon or in front of an opening keyword. -/
def skip : Nat → m Unit
  | 0 => g.stop .endless
  | n + 1 => do
      if ← g.atEnd then return ()
      else if (← g.previous).kind = .semicolon then return ()
      else if (← g.peek).kind.beginsStatement then return ()
      else
        let _ ← g.advance
        skip n

def synchronize (n start : Nat) : m Unit := do
  if (← g.position) = start then
    let _ ← g.advance
    g.skip n
  else g.skip n

/-- A statement, or an error and what is given up for it. -/
def segment (n : Nat) : m Segment := do
  let start ← g.position
  g.rescue (g.statement n) .statement fun e => do
    g.synchronize n start
    return .error e

def segments (n : Nat) : Nat → m (List Segment)
  | 0 => g.stop .endless
  | k + 1 => do
      if ← g.atEnd then return []
      else
        let x ← g.noting .turn (g.segment n)
        let xs ← segments n k
        return x :: xs

/-- One expression that must reach to the end. -/
def onlyExpression (n : Nat) : m Expr := do
  let e ← g.expression n n
  if ← g.atEnd then return e
  else g.fail .endOfExpression

/-- The same, with a syntax error as an answer. -/
def wholeExpression (n : Nat) : m (Except SyntaxError Expr) :=
  g.rescue (g.onlyExpression n) .ok fun e => return .error e

end Gait

/-- Tokens of which only those from `first` up to `last` can be seen. -/
structure Window where
  tokens : List Token
  first : Nat
  last : Nat

/-- A walk without marks. -/
abbrev Walk (α : Type) := StateT Nat (Except Stop) α

namespace Window

def at? (v : Window) (i : Nat) : Option Token :=
  if v.first ≤ i ∧ i ≤ v.last then v.tokens[i]? else none

def see (v : Window) (i : Nat) : Walk Token := fun pos =>
  match v.at? i with
  | some t => .ok (t, pos)
  | none => .error .outside

/-- Walks that see what the window shows. They leave no marks. -/
def gait (v : Window) : Gait Walk where
  peek := fun pos => v.see pos pos
  previous := fun pos =>
    match pos with
    | 0 => .error .outside
    | before + 1 => v.see before pos
  forward := modify (· + 1)
  rewind := set 0
  position := get
  stop := fun x => throw x
  rescue := fun w f handle pos =>
    match w pos with
    | .ok (a, q) => .ok (f a, q)
    | .error (.halt e q) => handle e q
    | .error x => .error x
  noting := fun _ w => w

variable {v : Window} {s : TokenStream} {α β : Type}

/-- The window ends at the end of the stream, whatever stands behind it. -/
structure Shows (v : Window) (s : TokenStream) : Prop where
  tokens : ∃ behind, v.tokens = s.body ++ s.stop :: behind
  last : v.last = s.body.length
  body : ∀ t ∈ s.body, t.kind ≠ .eof
  stop : s.stop.kind = .eof

theorem bind_of_ok {w : Walk α} {p q : Nat} {a : α} (h : w p = .ok (a, q)) (f : α → Walk β) :
    (w >>= f) p = f a q := by
  change (w p >>= fun x => f x.1 x.2) = f a q
  rw [h]
  rfl

theorem bind_of_error {w : Walk α} {p : Nat} {x : Stop} (h : w p = .error x)
    (f : α → Walk β) : (w >>= f) p = .error x := by
  change (w p >>= fun x => f x.1 x.2) = .error x
  rw [h]
  rfl

theorem rescue_of_ok {w : Walk α} {p q : Nat} {a : α} (h : w p = .ok (a, q)) (f : α → β)
    (handle : SyntaxError → Walk β) : v.gait.rescue w f handle p = .ok (f a, q) := by
  simp only [gait, h]

theorem rescue_of_halt {w : Walk α} {p q : Nat} {e : SyntaxError}
    (h : w p = .error (.halt e q)) (f : α → β) (handle : SyntaxError → Walk β) :
    v.gait.rescue w f handle p = handle e q := by
  simp only [gait, h]

theorem noting_eq (a : Nat → Act) (w : Walk α) : v.gait.noting a w = w := rfl

theorem segment_eq (n start : Nat) :
    v.gait.segment n start =
      v.gait.rescue (v.gait.statement n) .statement (fun e => do
        v.gait.synchronize n start
        return .error e) start := rfl

namespace Shows
variable {pos : Nat} {t : Token} {ts : List Token}

theorem at?_eq (h : v.Shows s) (hfirst : v.first ≤ pos) (hpos : pos ≤ s.body.length) :
    v.at? pos = some ((s.body.drop pos).headD s.stop) := by
  obtain ⟨behind, htokens⟩ := h.tokens
  have hin : v.first ≤ pos ∧ pos ≤ v.last := ⟨hfirst, h.last ▸ hpos⟩
  rw [at?, if_pos hin, htokens]
  exact Segment.getElem?_append_stop s.body s.stop behind hpos

theorem peek_eq (h : v.Shows s) (hfirst : v.first ≤ pos) (hpos : pos ≤ s.body.length) :
    v.gait.peek pos = .ok ((s.body.drop pos).headD s.stop, pos) := by
  change v.see pos pos = _
  rw [see, h.at?_eq hfirst hpos]

theorem lt_of_drop (hd : s.body.drop pos = t :: ts) : pos < s.body.length := by
  by_contra hle
  rw [List.drop_eq_nil_of_le (by omega)] at hd
  cases hd

theorem peek_next (h : v.Shows s) (hfirst : v.first ≤ pos) (hd : s.body.drop pos = t :: ts) :
    v.gait.peek pos = .ok (t, pos) := by
  rw [h.peek_eq hfirst (Nat.le_of_lt (lt_of_drop hd)), hd]
  rfl

theorem previous_next (h : v.Shows s) (hfirst : v.first ≤ pos)
    (hd : s.body.drop pos = t :: ts) : v.gait.previous (pos + 1) = .ok (t, pos + 1) := by
  change v.see pos (pos + 1) = _
  rw [see, h.at?_eq hfirst (Nat.le_of_lt (lt_of_drop hd)), hd]
  rfl

theorem atEnd_next (h : v.Shows s) (hfirst : v.first ≤ pos) (hd : s.body.drop pos = t :: ts) :
    v.gait.atEnd pos = .ok (false, pos) := by
  have hmem : t ∈ s.body := List.mem_of_mem_drop (hd ▸ List.mem_cons_self)
  rw [Gait.atEnd, bind_of_ok (h.peek_next hfirst hd), decide_eq_false (h.body t hmem)]
  rfl

theorem atEnd_end (h : v.Shows s) (hfirst : v.first ≤ s.body.length) :
    v.gait.atEnd s.body.length = .ok (true, s.body.length) := by
  rw [Gait.atEnd, bind_of_ok (h.peek_eq hfirst (Nat.le_refl _)), List.drop_length,
    List.headD_nil, decide_eq_true h.stop]
  rfl

theorem advance_next (h : v.Shows s) (hfirst : v.first ≤ pos)
    (hd : s.body.drop pos = t :: ts) : v.gait.advance pos = .ok (t, pos + 1) := by
  rw [Gait.advance, bind_of_ok (h.atEnd_next hfirst hd)]
  exact h.previous_next hfirst hd

theorem check_next (h : v.Shows s) (hfirst : v.first ≤ pos) (hd : s.body.drop pos = t :: ts)
    (k : Kind) : v.gait.check k pos = .ok (decide (t.kind = k), pos) := by
  rw [Gait.check, bind_of_ok (h.atEnd_next hfirst hd)]
  exact bind_of_ok (h.peek_next hfirst hd) _

theorem check_end (h : v.Shows s) (hfirst : v.first ≤ s.body.length) (k : Kind) :
    v.gait.check k s.body.length = .ok (false, s.body.length) := by
  rw [Gait.check, bind_of_ok (h.atEnd_end hfirst)]
  rfl

theorem accept_next (h : v.Shows s) (hfirst : v.first ≤ pos) (hd : s.body.drop pos = t :: ts)
    (ks : List Kind) : v.gait.accept ks pos =
      .ok (decide (t.kind ∈ ks), if t.kind ∈ ks then pos + 1 else pos) := by
  induction ks with
  | nil => simp only [Gait.accept, List.not_mem_nil, decide_false, if_false]; rfl
  | cons k ks ih =>
      rw [Gait.accept, bind_of_ok (h.check_next hfirst hd k)]
      by_cases hk : t.kind = k
      · simp only [hk, decide_true, if_true, List.mem_cons, true_or]
        rw [bind_of_ok (h.advance_next hfirst hd)]
        rfl
      · simp only [hk, decide_false, Bool.false_eq_true, if_false, List.mem_cons, false_or]
        exact ih

theorem accept_end (h : v.Shows s) (hfirst : v.first ≤ s.body.length) (ks : List Kind) :
    v.gait.accept ks s.body.length = .ok (false, s.body.length) := by
  induction ks with
  | nil => rfl
  | cons k ks ih =>
      rw [Gait.accept, bind_of_ok (h.check_end hfirst k)]
      exact ih

end Shows

/-- Where a reader stopped, as an index into the stream. -/
def placed (s : TokenStream) : Except Halt (α × List Token) → Except Stop (α × Nat)
  | .ok (a, rest) => .ok (a, s.body.length - rest.length)
  | .error h => .error (.halt (h.error s.stop) (s.body.length - h.rest.length))

theorem placed_ok {q : Nat} (hq : q ≤ s.body.length) (a : α) :
    placed s (.ok (a, s.body.drop q)) = .ok (a, q) := by
  rw [placed, List.length_drop, Nat.sub_sub_self hq]

theorem placed_error {q : Nat} (hq : q ≤ s.body.length) (expected : Expectation) :
    (placed s (.error ⟨expected, s.body.drop q⟩) : Except Stop (α × Nat)) =
      .error (.halt ⟨expected, (s.body.drop q).headD s.stop⟩ q) := by
  rw [placed, List.length_drop, Nat.sub_sub_self hq]
  rfl

/-- From index `a` on, the walk `w` goes as the reader `r` reads. -/
def Tracks (s : TokenStream) (a : Nat) (w : Walk α) (r : Reader α) : Prop :=
  ∀ pos, a ≤ pos → pos ≤ s.body.length → w pos = placed s (r (s.body.drop pos))

theorem Tracks.mono {a b : Nat} {w : Walk α} {r : Reader α} (h : Tracks s a w r) (hab : a ≤ b) :
    Tracks s b w r :=
  fun pos hpos => h pos (Nat.le_trans hab hpos)

/-- A walk is followed at the end of the stream and in front of each of its tokens. -/
theorem Tracks.intro {a : Nat} {w : Walk α} {r : Reader α}
    (stop : a ≤ s.body.length → w s.body.length = placed s (r []))
    (next : ∀ pos t, a ≤ pos → s.body.drop pos = t :: s.body.drop (pos + 1) →
      w pos = placed s (r (t :: s.body.drop (pos + 1)))) : Tracks s a w r := by
  intro pos hpos hle
  rcases Nat.lt_or_eq_of_le hle with hlt | rfl
  · have hd := List.drop_eq_getElem_cons hlt
    rw [hd]
    exact next pos _ hpos hd
  · rw [List.drop_length]
    exact stop hpos

theorem bind_placed {w : Walk α} {r : Reader α} {f : α → Walk β} {g : α → Reader β} {pos : Nat}
    (hpos : pos ≤ s.body.length) (hr : Reader.Trims r)
    (hw : w pos = placed s (r (s.body.drop pos)))
    (hf : ∀ a q, pos ≤ q → q ≤ s.body.length → f a q = placed s (g a (s.body.drop q))) :
    (w >>= f) pos = placed s (Reader.andThen r g (s.body.drop pos)) := by
  rcases hr.stops_at hpos with ⟨a, q, hle, hq, hrun⟩ | ⟨expected, q, _, _, hrun⟩
  · rw [hrun, placed_ok hq] at hw
    rw [bind_of_ok hw, Reader.andThen_of_ok hrun]
    exact hf a q hle hq
  · rw [hrun] at hw
    rw [bind_of_error hw, Reader.andThen_of_error hrun]
    rfl

theorem Tracks.bind {a : Nat} {w : Walk α} {r : Reader α} {f : α → Walk β} {g : α → Reader β}
    (hr : Reader.Trims r) (hw : Tracks s a w r) (hf : ∀ x, Tracks s a (f x) (g x)) :
    Tracks s a (w >>= f) (Reader.andThen r g) :=
  fun pos hpos hle => bind_placed hle hr (hw pos hpos hle)
    fun x q hq hqle => hf x q (Nat.le_trans hpos hq) hqle

theorem Shows.fail_eq (h : v.Shows s) {pos : Nat} (hfirst : v.first ≤ pos)
    (hpos : pos ≤ s.body.length) (expected : Expectation) :
    (v.gait.fail expected : Walk α) pos = placed s (.error ⟨expected, s.body.drop pos⟩) := by
  rw [Gait.fail, bind_of_ok (h.peek_eq hfirst hpos), placed_error hpos]
  rfl

theorem Shows.consume_tracks (h : v.Shows s) {a : Nat} (ha : v.first ≤ a) (k : Kind)
    (missing : Expectation) (x : α) :
    Tracks s a (do v.gait.consume k missing; return x) (Reader.expect k missing x) := by
  apply Tracks.intro
  · intro hle
    have hfail := h.fail_eq (α := Unit) (Nat.le_trans ha hle) (Nat.le_refl _) missing
    have hconsume : v.gait.consume k missing s.body.length =
        placed s (.error ⟨missing, s.body.drop s.body.length⟩) := by
      rw [Gait.consume, bind_of_ok (h.check_end (Nat.le_trans ha hle) k)]
      exact hfail
    rw [List.drop_length] at hconsume
    exact bind_of_error hconsume _
  · intro pos t hpos hd
    have hfirst := Nat.le_trans ha hpos
    have hlt := lt_of_drop hd
    have hcheck := h.check_next hfirst hd k
    by_cases hk : t.kind = k
    · have hconsume : v.gait.consume k missing pos = .ok ((), pos + 1) := by
        rw [Gait.consume, bind_of_ok hcheck, decide_eq_true hk]
        exact bind_of_ok (h.advance_next hfirst hd) _
      rw [bind_of_ok hconsume, Reader.expect_of_kind hk, placed_ok hlt]
      rfl
    · have hconsume : v.gait.consume k missing pos =
          placed s (.error ⟨missing, s.body.drop pos⟩) := by
        rw [Gait.consume, bind_of_ok hcheck, decide_eq_false hk]
        exact h.fail_eq hfirst (Nat.le_of_lt hlt) missing
      rw [hd] at hconsume
      rw [Reader.expect_cons, if_neg hk]
      exact bind_of_error hconsume _

theorem Shows.branch_next (h : v.Shows s) {pos : Nat} {t : Token} {ts : List Token}
    (hfirst : v.first ≤ pos) (hd : s.body.drop pos = t :: ts) (ks : List Kind) (x y : Walk α) :
    (do if ← v.gait.accept ks then x else y) pos = if t.kind ∈ ks then x (pos + 1) else y pos := by
  rw [bind_of_ok (h.accept_next hfirst hd ks)]
  by_cases hk : t.kind ∈ ks
  · rw [decide_eq_true hk, if_pos hk, if_pos hk, if_pos rfl]
  · rw [decide_eq_false hk, if_neg hk, if_neg hk, if_neg Bool.false_ne_true]

theorem Shows.branch_end (h : v.Shows s) (hfirst : v.first ≤ s.body.length) (ks : List Kind)
    (x y : Walk α) : (do if ← v.gait.accept ks then x else y) s.body.length = y s.body.length := by
  rw [bind_of_ok (h.accept_end hfirst ks), if_neg Bool.false_ne_true]

theorem Shows.primary_end (h : v.Shows s) (hfirst : v.first ≤ s.body.length)
    (nested : Walk Expr) :
    v.gait.primary nested s.body.length = v.gait.fail .operand s.body.length := by
  rw [Gait.primary]
  simp only [h.branch_end hfirst]

theorem Shows.primary_next (h : v.Shows s) {pos : Nat} {t : Token} {ts : List Token}
    (hfirst : v.first ≤ pos) (hd : s.body.drop pos = t :: ts) (nested : Walk Expr) :
    v.gait.primary nested pos =
      match Expr.start t with
      | .value x => .ok (.literal x, pos + 1)
      | .opening =>
          (nested >>= fun e => do
            v.gait.consume .rightParen .closingParen
            return .grouping e) (pos + 1)
      | _ => v.gait.fail .operand pos := by
  have hprev (f : Token → Walk Expr) : (v.gait.previous >>= f) (pos + 1) = f t (pos + 1) :=
    bind_of_ok (h.previous_next hfirst hd) f
  rw [Gait.primary]
  simp only [h.branch_next hfirst hd, hprev]
  unfold Expr.start
  cases t.kind <;> rfl

theorem start_of_operator {t : Token} (h : t.kind ∈ [Kind.bang, Kind.minus]) :
    Expr.start t = .operator := by
  unfold Expr.start
  simp only [List.mem_cons, List.not_mem_nil, or_false] at h
  rcases h with hk | hk <;> rw [hk]

theorem Shows.unary_tracks (h : v.Shows s) {a n : Nat} (ha : v.first ≤ a)
    (hn : s.body.length < a + n) {nested : Walk Expr} {inner : Reader Expr}
    (hinner : Reader.Trims inner) (hnested : Tracks s (a + 1) nested inner) :
    Tracks s a (v.gait.unary nested n) (Expr.readUnary inner) := by
  induction n generalizing a with
  | zero =>
      intro pos hpos hle
      omega
  | succ n ih =>
      apply Tracks.intro
      · intro hle
        have hfirst := Nat.le_trans ha hle
        have hfail := h.fail_eq (α := Expr) hfirst (Nat.le_refl _) .operand
        rw [List.drop_length] at hfail
        rw [Gait.unary, noting_eq, h.branch_end hfirst, h.primary_end hfirst, Expr.readUnary_nil]
        exact hfail
      · intro pos t hpos hd
        have hfirst := Nat.le_trans ha hpos
        have hlt := lt_of_drop hd
        have noOperator (hs : Expr.start t ≠ .operator) : t.kind ∉ [Kind.bang, Kind.minus] :=
          fun hk => hs (start_of_operator hk)
        rw [Gait.unary, noting_eq, h.branch_next hfirst hd, Expr.readUnary_cons]
        cases hs : Expr.start t with
        | operator =>
            have htail := ih (a := a + 1) (by omega) (by omega) (hnested.mono (by omega))
            rw [if_pos (Expr.start_eq_operator hs), bind_of_ok (h.previous_next hfirst hd)]
            refine bind_placed hlt (Expr.readUnary_trims hinner)
              (htail (pos + 1) (by omega) hlt) fun e q _ hq => ?_
            exact (placed_ok hq _).symm
        | value x =>
            rw [if_neg (noOperator (by simp [hs])), h.primary_next hfirst hd, hs]
            exact (placed_ok hlt _).symm
        | opening =>
            -- The walk is behind the parenthesis when it comes to what stands in it.
            rw [if_neg (noOperator (by simp [hs])), h.primary_next hfirst hd, hs]
            refine bind_placed hlt hinner (hnested (pos + 1) (by omega) hlt) fun e q hq hqle => ?_
            exact h.consume_tracks (a := a) ha _ _ _ q (by omega) hqle
        | refused =>
            rw [if_neg (noOperator (by simp [hs])), h.primary_next hfirst hd, hs,
              h.fail_eq hfirst (Nat.le_of_lt hlt), hd]

theorem Shows.chain_placed (h : v.Shows s) {a : Nat} (ha : v.first ≤ a) (l : Expr.Level)
    {operand : Walk Expr} {inner : Reader Expr} (hinner : Reader.Trims inner)
    (hoperand : Tracks s a operand inner) (n : Nat) (left : Expr) {pos : Nat} (hpos : a ≤ pos)
    (hle : pos ≤ s.body.length) (hn : s.body.length < pos + n) :
    v.gait.chain l operand n left pos =
      placed s (Expr.readChain l inner n left (s.body.drop pos)) := by
  induction n generalizing pos left with
  | zero => omega
  | succ n ih =>
      have hfirst := Nat.le_trans ha hpos
      rcases Nat.lt_or_eq_of_le hle with hlt | rfl
      · have hd := List.drop_eq_getElem_cons hlt
        rw [Gait.chain, h.branch_next hfirst hd]
        cases hop : l.has s.body[pos].kind with
        | true =>
            rw [if_pos ((l.has_iff _).mp hop), bind_of_ok (h.previous_next hfirst hd), hd,
              Expr.readChain_of_has hop]
            refine bind_placed hlt hinner (hoperand (pos + 1) (by omega) hlt) ?_
            intro right q hq hqle
            exact ih _ (by omega) hqle (by omega)
        | false =>
            have hnot : s.body[pos].kind ∉ l.operators := by
              rw [← l.has_iff, hop]
              exact Bool.false_ne_true
            rw [if_neg hnot, hd, Expr.readChain_of_not_has hop, ← hd, placed_ok hle]
            rfl
      · rw [Gait.chain, h.branch_end hfirst, List.drop_length, Expr.readChain_nil]
        rfl

theorem Shows.level_tracks (h : v.Shows s) {a n : Nat} (ha : v.first ≤ a)
    (hn : s.body.length < a + n) (l : Expr.Level) {operand : Walk Expr} {inner : Reader Expr}
    (hinner : Reader.Trims inner) (hoperand : Tracks s a operand inner) :
    Tracks s a (v.gait.level n l operand) (Expr.readLevel n l inner) := by
  intro pos hpos hle
  rw [Expr.readLevel_eq]
  refine bind_placed hle hinner (hoperand pos hpos hle) fun left q hq hqle => ?_
  exact h.chain_placed ha l hinner hoperand n left (by omega) hqle (by omega)

theorem Shows.expression_tracks_within (h : v.Shows s) {a n depth : Nat} (ha : v.first ≤ a)
    (hn : s.body.length < a + n) (hdepth : s.body.length < a + depth) :
    Tracks s a (v.gait.expression n depth) (Expr.readWithin n depth) := by
  induction depth generalizing a with
  | zero =>
      intro pos hpos hle
      omega
  | succ depth ih =>
      have tu := Expr.readUnary_trims (Expr.readWithin_trims n depth)
      have tf := Expr.readLevel_trims (l := .factor) tu n
      have tt := Expr.readLevel_trims (l := .term) tf n
      have tc := Expr.readLevel_trims (l := .comparison) tt n
      have hnested := ih (a := a + 1) (by omega) (by omega) (by omega)
      have hu := h.unary_tracks ha hn (Expr.readWithin_trims n depth) hnested
      have hf := h.level_tracks ha hn .factor tu hu
      have ht := h.level_tracks ha hn .term tf hf
      have hc := h.level_tracks ha hn .comparison tt ht
      have he := h.level_tracks ha hn .equality tc hc
      exact he

theorem Shows.expression_tracks (h : v.Shows s) {a n : Nat} (ha : v.first ≤ a)
    (hn : s.body.length < a + n) : Tracks s a (v.gait.expression n n) Expr.read := by
  intro pos hpos hle
  have hlen : (s.body.drop pos).length < n := by
    rw [List.length_drop]
    omega
  rw [h.expression_tracks_within ha hn hn pos hpos hle,
    Expr.readWithin_eq_read (Nat.le_of_lt hlen) hlen]

theorem Shows.statement_tracks (h : v.Shows s) {a n : Nat} (ha : v.first ≤ a)
    (hn : s.body.length < a + n) : Tracks s a (v.gait.statement n) Stmt.read := by
  have hprint : Tracks s a (do
      let e ← v.gait.expression n n
      v.gait.consume .semicolon .semicolonAfterValue
      return Stmt.print e) Stmt.readPrint := by
    rw [Stmt.readPrint_eq]
    exact (h.expression_tracks ha hn).bind Expr.read_trims fun e =>
      h.consume_tracks ha .semicolon .semicolonAfterValue (Stmt.print e)
  have hexpr : Tracks s a (do
      let e ← v.gait.expression n n
      v.gait.consume .semicolon .semicolonAfterExpression
      return Stmt.expression e) Stmt.readExpression := by
    rw [Stmt.readExpression_eq]
    exact (h.expression_tracks ha hn).bind Expr.read_trims fun e =>
      h.consume_tracks ha .semicolon .semicolonAfterExpression (Stmt.expression e)
  apply Tracks.intro
  · intro hle
    have hend := hexpr s.body.length hle (Nat.le_refl _)
    rw [List.drop_length] at hend
    rw [Gait.statement, h.branch_end (Nat.le_trans ha hle), hend]
    rfl
  · intro pos t hpos hd
    have hlt := lt_of_drop hd
    rw [Gait.statement, h.branch_next (Nat.le_trans ha hpos) hd, Stmt.read_cons]
    by_cases hk : t.kind = .printWord
    · rw [if_pos (List.mem_singleton.mpr hk), if_pos hk]
      exact hprint (pos + 1) (by omega) hlt
    · rw [if_neg (fun hmem => hk (List.mem_singleton.mp hmem)), if_neg hk,
        hexpr pos hpos (Nat.le_of_lt hlt), hd]

theorem Shows.skip_eq (h : v.Shows s) {c n : Nat} {p : Token} {ts : List Token}
    (hc : v.first ≤ c) (hd : s.body.drop c = p :: ts) (hn : s.body.length < c + n) :
    v.gait.skip n (c + 1) =
      .ok ((), s.body.length - (Segment.skip p.kind (s.body.drop (c + 1))).length) := by
  induction n generalizing c p ts with
  | zero =>
      have hlt := lt_of_drop hd
      omega
  | succ n ih =>
      have hlt := lt_of_drop hd
      have hfirst : v.first ≤ c + 1 := by omega
      rcases Nat.lt_or_eq_of_le hlt with hnext | hend
      · have hd' := List.drop_eq_getElem_cons hnext
        rw [Gait.skip, bind_of_ok (h.atEnd_next hfirst hd'), if_neg Bool.false_ne_true,
          bind_of_ok (h.previous_next hc hd), hd', Segment.skip]
        by_cases hsemi : p.kind = .semicolon
        · rw [if_pos hsemi, if_pos (.inl hsemi), ← hd', List.length_drop, Nat.sub_sub_self hlt]
          rfl
        · rw [if_neg hsemi, bind_of_ok (h.peek_next hfirst hd')]
          by_cases hbegin : (s.body[c + 1]).kind.beginsStatement = true
          · rw [if_pos hbegin, if_pos (.inr hbegin), ← hd', List.length_drop,
              Nat.sub_sub_self hlt]
            rfl
          · rw [if_neg hbegin, if_neg (not_or.mpr ⟨hsemi, hbegin⟩),
              bind_of_ok (h.advance_next hfirst hd')]
            exact ih hfirst hd' (by omega)
      · have hend' : c + 1 = s.body.length := hend
        rw [hend', Gait.skip, bind_of_ok (h.atEnd_end (by omega)), List.drop_length]
        rfl

/-- Giving up after an error looks at no token in front of the failed statement:
the walk is behind its first token when it first looks back. -/
theorem Shows.synchronize_eq (h : v.Shows s) {a q n : Nat} (ha : v.first ≤ a)
    (hlt : a < s.body.length) (haq : a ≤ q) (hq : q ≤ s.body.length)
    (hn : s.body.length < a + n) :
    v.gait.synchronize n a q = .ok ((), s.body.length -
      (Segment.resume (s.body.drop a) (s.body.drop q)).length) := by
  have hget : v.gait.synchronize n a q = (if q = a then v.gait.advance >>= fun _ => v.gait.skip n
      else v.gait.skip n) q := rfl
  obtain ⟨c, hc⟩ : ∃ c, c + 1 = max q (a + 1) := ⟨max q (a + 1) - 1, by omega⟩
  have hcl : c < s.body.length := by omega
  have hd := List.drop_eq_getElem_cons hcl
  have hskip := h.skip_eq (n := n) (by omega) hd (by omega)
  rw [Segment.resume_drop hq hc (List.getElem?_eq_getElem hcl), ← hskip, hget]
  split
  · rename_i hqa
    obtain rfl : c = q := by omega
    exact bind_of_ok (h.advance_next (by omega) hd) _
  · obtain rfl : c + 1 = q := by omega
    rfl

theorem Shows.segment_of_ok (h : v.Shows s) {a q n : Nat} {st : Stmt} (ha : v.first ≤ a)
    (hle : a ≤ s.body.length) (hn : s.body.length < a + n) (hq : q ≤ s.body.length)
    (hr : Stmt.read (s.body.drop a) = .ok (st, s.body.drop q)) :
    v.gait.segment n a = .ok (.statement st, q) := by
  have hst := h.statement_tracks ha hn a (Nat.le_refl _) hle
  rw [hr, placed_ok hq] at hst
  rw [segment_eq]
  exact rescue_of_ok hst _ _

theorem Shows.segment_of_error (h : v.Shows s) {a q n : Nat} {x : Expectation}
    (ha : v.first ≤ a) (hlt : a < s.body.length) (hn : s.body.length < a + n) (haq : a ≤ q)
    (hq : q ≤ s.body.length)
    (hr : Stmt.read (s.body.drop a) = .error ⟨x, s.body.drop q⟩) :
    v.gait.segment n a = .ok (.error ⟨x, (s.body.drop q).headD s.stop⟩, s.body.length -
      (Segment.resume (s.body.drop a) (s.body.drop q)).length) := by
  have hst := h.statement_tracks ha hn a (Nat.le_refl _) (Nat.le_of_lt hlt)
  rw [hr, placed_error hq] at hst
  rw [segment_eq, rescue_of_halt hst]
  exact bind_of_ok (h.synchronize_eq ha hlt haq hq hn) _

/-- A walk over the rest of the stream gives the segments that reading gives. -/
theorem Shows.segments_eq (h : v.Shows s) {a n m : Nat} (ha : v.first ≤ a)
    (hle : a ≤ s.body.length) (hn : s.body.length < a + n) (hm : s.body.length < a + m) :
    v.gait.segments n m a = .ok (Segment.all s.stop (s.body.drop a), s.body.length) := by
  induction m generalizing a with
  | zero => omega
  | succ m ih =>
      rcases Nat.lt_or_eq_of_le hle with hlt | rfl
      · have hd := List.drop_eq_getElem_cons hlt
        have hne : s.body.drop a ≠ [] := by
          rw [hd]
          exact List.cons_ne_nil _ _
        -- A segment takes at least one token, so the bound covers the rest.
        have go {x : Segment} {b : Nat} (hab : a < b) (hb : b ≤ s.body.length)
            (hx : v.gait.segment n a = .ok (x, b)) : v.gait.segments n (m + 1) a =
              .ok (x :: Segment.all s.stop (s.body.drop b), s.body.length) := by
          rw [Gait.segments, bind_of_ok (h.atEnd_next ha hd), if_neg Bool.false_ne_true,
            noting_eq, bind_of_ok hx, bind_of_ok (ih (by omega) hb (by omega) (by omega))]
          rfl
        rcases Stmt.read_trims.stops_at hle with ⟨st, q, _, hq, hr⟩ | ⟨x, q, haq, hq, hr⟩
        · have hfewer := Stmt.read_advances _ _ _ hr
          rw [List.length_drop, List.length_drop] at hfewer
          rw [go (by omega) hq (h.segment_of_ok ha hle hn hq hr), Segment.all_of_ok hr]
        · have hx := h.segment_of_error ha hlt hn haq hq hr
          obtain ⟨b, _, hb, hresume⟩ := Segment.exists_drop_of_suffix
            (Segment.resume_suffix (s.body.drop a) (s.body.drop q)) hle
          have hfewer := Segment.resume_length_lt hne (s.body.drop q)
          rw [hresume, List.length_drop, List.length_drop] at hfewer
          rw [hresume, List.length_drop, Nat.sub_sub_self hb] at hx
          rw [go (by omega) hb hx, Segment.all_of_error hne hr, hresume]
          rfl
      · rw [Gait.segments, bind_of_ok (h.atEnd_end ha), List.drop_length]
        rfl

theorem Shows.onlyExpression_tracks (h : v.Shows s) {a n : Nat} (ha : v.first ≤ a)
    (hn : s.body.length < a + n) : Tracks s a (v.gait.onlyExpression n) Expr.readOnly := by
  rw [Expr.readOnly_eq]
  refine (h.expression_tracks ha hn).bind Expr.read_trims fun e => ?_
  apply Tracks.intro
  · intro hle
    rw [bind_of_ok (h.atEnd_end (Nat.le_trans ha hle)), if_pos rfl]
    rfl
  · intro pos t hpos hd
    have hfirst := Nat.le_trans ha hpos
    rw [bind_of_ok (h.atEnd_next hfirst hd), if_neg Bool.false_ne_true,
      h.fail_eq hfirst (Nat.le_of_lt (lt_of_drop hd)), hd]

theorem Shows.wholeExpression_eq (h : v.Shows s) {a n : Nat} (ha : v.first ≤ a)
    (hle : a ≤ s.body.length) (hn : s.body.length < a + n) :
    v.gait.wholeExpression n a =
      .ok ((Cursor.mk s a).parseExpression.1, (Cursor.mk s a).parseExpression.2.pos) := by
  have honly := h.onlyExpression_tracks ha hn a (Nat.le_refl _) hle
  have hahead : (Cursor.mk s a).ahead.body = s.body.drop a := rfl
  unfold Gait.wholeExpression Cursor.parseExpression
  rw [hahead, Expr.readAll_eq]
  rw [Expr.readOnly_eq, Reader.andThen] at honly
  cases hr : Expr.read (s.body.drop a) with
  | error x =>
      rw [hr] at honly
      exact rescue_of_halt honly _ _
  | ok x =>
      obtain ⟨e, rest⟩ := x
      rw [hr] at honly
      cases rest with
      | nil => exact rescue_of_ok honly _ _
      | cons t rest => exact rescue_of_halt honly _ _

end Window

end Lox

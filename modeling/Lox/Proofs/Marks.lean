import Lox.Proofs.Ahead

/-!
# The marks of a cursor

Here reading is done once more with nothing but an index into the tokens, which are
all within reach: those behind the first end token too, and, counted around, the last
one in front of the first. The index outlives an error. Whatever is done with it leaves
a mark that tells where it stood: looking at the next token or at the one before it,
moving on, finding an operand, taking a turn of the loop over statements, answering a
call.

The answers are those of the cursor of a stream. From the marks it can be seen that no
harm would have come from more tokens or fewer. The index never leaves the stream and
is only taken back by rewinding; it is looked back from where there is something to
look back at; operands, turns and calls are paid for with tokens. Since each of them
is, a bound on their number that covers the tokens is never reached.
-/
namespace Lox

/-- What was done, and the index behind it. -/
structure Mark where
  act : Act
  pos : Nat

/-- A mark is in order if it was made at `p` and the stream ends at `n`. Only moving
on and rewinding change the index. -/
def Mark.Fits (n p : Nat) (m : Mark) : Prop :=
  m.pos ≤ n ∧
    match m.act with
    | .look => m.pos = p
    | .lookBack => m.pos = p ∧ 1 ≤ p
    | .move => m.pos = p + 1
    | .found _ start => m.pos = p ∧ start < p
    | .turn start => m.pos = p ∧ start < p
    | .called start => m.pos = p ∧ start ≤ p
    | .rewound => m.pos = 0

/-- Marks in order that lead from one index to another. -/
inductive Leads (n : Nat) : Nat → List Mark → Nat → Prop
  | here {p : Nat} : Leads n p [] p
  | next {p q : Nat} {m : Mark} {ms : List Mark} :
      m.Fits n p → Leads n m.pos ms q → Leads n p (m :: ms) q

namespace Leads
variable {n p q r : Nat} {ms ms' : List Mark}

theorem single {m : Mark} (h : m.Fits n p) : Leads n p [m] m.pos := .next h .here

theorem append (h : Leads n p ms q) (h' : Leads n q ms' r) : Leads n p (ms ++ ms') r := by
  induction h with
  | here => exact h'
  | next hm _ ih => exact .next hm (ih h')

theorem le (h : Leads n p ms q) (hp : p ≤ n) : q ≤ n := by
  induction h with
  | here => exact hp
  | next hm _ ih => exact ih hm.1

end Leads

/-- An index and the marks made so far. -/
structure Track where
  pos : Nat
  marks : List Mark

/-- A walk that leaves marks. -/
abbrev MarkedWalk (α : Type) := ExceptT Stop (StateM Track) α

/-- What some calls answer, one after the other. -/
def Cursor.answers (r : Reporter) (c : Cursor) : List Call → List Answer
  | [] => []
  | q :: qs =>
      let done := call r c q
      done.value.1 :: answers done.reporter done.value.2 qs

namespace MarkedWalk
variable {α β : Type}

theorem bind_of_ok {t : MarkedWalk α} {k k' : Track} {a : α} (h : t k = (.ok a, k'))
    (f : α → MarkedWalk β) : (t >>= f) k = f a k' := by
  change ExceptT.bindCont f (t k).1 (t k).2 = f a k'
  rw [h]
  rfl

theorem bind_of_error {t : MarkedWalk α} {k k' : Track} {x : Stop} (h : t k = (.error x, k'))
    (f : α → MarkedWalk β) : (t >>= f) k = (.error x, k') := by
  change ExceptT.bindCont f (t k).1 (t k).2 = (.error x, k')
  rw [h]
  rfl

def mark (a : Act) : MarkedWalk Unit :=
  modify fun k => ⟨k.pos, k.marks ++ [⟨a, k.pos⟩]⟩

def goTo (pos : Nat) (a : Act) : MarkedWalk Unit := do
  modify fun k => ⟨pos, k.marks⟩
  mark a

/-- Leaves a mark behind a walk that succeeds. It tells where the walk began. -/
def noting (a : Nat → Act) (t : MarkedWalk α) : MarkedWalk α := do
  let start := (← get).pos
  let x ← t
  mark (a start)
  return x

/-- A noted walk that succeeds ends its marks with one that tells where it began. -/
theorem noting_of_ok {t : MarkedWalk α} {k k' : Track} {x : α} (h : t k = (.ok x, k'))
    (a : Nat → Act) :
    noting a t k = (.ok x, ⟨k'.pos, k'.marks ++ [⟨a k.pos, k'.pos⟩]⟩) := by
  change (t >>= fun x => do mark (a k.pos); return x) k = _
  rw [bind_of_ok h]
  rfl

theorem noting_of_error {t : MarkedWalk α} {k k' : Track} {x : Stop} (h : t k = (.error x, k'))
    (a : Nat → Act) : noting a t k = (.error x, k') :=
  bind_of_error h fun x => do mark (a k.pos); return x

def rescue (t : MarkedWalk α) (f : α → β) (handle : SyntaxError → MarkedWalk β) :
    MarkedWalk β := fun k =>
  match t k with
  | (.ok a, k') => (.ok (f a), k')
  | (.error (.halt e _), k') => handle e k'
  | (.error x, k') => (.error x, k')

def token : Option Token → MarkedWalk Token
  | some t => return t
  | none => throw .outside

/-- Walks that leave a mark of whatever is done. In front of the first token stands the
last one. -/
def gait (ts : List Token) : Gait MarkedWalk where
  peek := do
    mark .look
    token ts[(← get).pos]?
  previous := do
    mark .lookBack
    let pos := (← get).pos
    token (if pos = 0 then ts.getLast? else ts[pos - 1]?)
  forward := do
    goTo ((← get).pos + 1) .move
  rewind := goTo 0 .rewound
  position := return (← get).pos
  stop := fun x => throw x
  rescue := rescue
  noting := noting

/-- Calls on one cursor, and what they answer. -/
def answerAll (ts : List Token) (n : Nat) : List Cursor.Call → MarkedWalk (List Cursor.Answer)
  | [] => return []
  | q :: qs => do
      let a ← (gait ts).answer n q
      let as ← answerAll ts n qs
      return a :: as

/-- A marked walk that began at `pos` has come to `q` as the walk `w` does. If it
succeeds, it has taken at least `gain` tokens. No walk ends by looking outside. -/
inductive Ends (w : Walk α) (pos gain q : Nat) : Except Stop α → Prop
  | ok {a : α} : w pos = .ok (a, q) → pos + gain ≤ q → Ends w pos gain q (.ok a)
  | halt {e : SyntaxError} : w pos = .error (.halt e q) →
      Ends w pos gain q (.error (.halt e q))
  | endless : w pos = .error .endless → Ends w pos gain q (.error .endless)

/-- What a walk goes on to do from `mid` is its own end. -/
theorem Ends.later {w w' : Walk α} {pos mid gain gain' q : Nat} {x : Except Stop α}
    (h : Ends w' mid gain' q x) (heq : w pos = w' mid) (hgain : pos + gain ≤ mid + gain') :
    Ends w pos gain q x := by
  cases h with
  | ok hw hle => exact .ok (heq.trans hw) (by omega)
  | halt hw => exact .halt (heq.trans hw)
  | endless hw => exact .endless (heq.trans hw)

/-- From `pos` on, the marked walk `t` goes as the walk `w` does and no step back, and
leaves marks in order. -/
def Keeps (n gain : Nat) (t : MarkedWalk α) (w : Walk α) (pos : Nat) : Prop :=
  ∀ marks, ∃ x q new, t ⟨pos, marks⟩ = (x, ⟨q, marks ++ new⟩) ∧ pos ≤ q ∧
    Leads n pos new q ∧ Ends w pos gain q x

namespace Keeps
variable {n gain pos : Nat} {t : MarkedWalk α} {w : Walk α}

theorem mono {gain' : Nat} (h : Keeps n gain t w pos) (hle : gain' ≤ gain) :
    Keeps n gain' t w pos := by
  intro marks
  obtain ⟨x, q, new, hrun, hpos, hleads, hends⟩ := h marks
  exact ⟨x, q, new, hrun, hpos, hleads, hends.later rfl (by omega)⟩

theorem pure (a : α) : Keeps n 0 (Pure.pure a) (Pure.pure a) pos := by
  intro marks
  refine ⟨.ok a, pos, [], ?_, Nat.le_refl _, .here, .ok rfl (Nat.le_refl _)⟩
  rw [List.append_nil]
  rfl

theorem endless : Keeps n gain (throw .endless : MarkedWalk α) (throw .endless) pos := by
  intro marks
  refine ⟨_, pos, [], ?_, Nat.le_refl _, .here, .endless rfl⟩
  rw [List.append_nil]
  rfl

/-- Where the first walk succeeds, the second is begun where the first came to, and has
to take what is still to be taken. -/
theorem bind_from {total : Nat} {f : α → MarkedWalk β} {g : α → Walk β} (hpos : pos ≤ n)
    (h : Keeps n gain t w pos)
    (hf : ∀ a q, w pos = .ok (a, q) → pos + gain ≤ q → q ≤ n →
      Keeps n (pos + total - q) (f a) (g a) q) :
    Keeps n total (t >>= f) (w >>= g) pos := by
  intro marks
  obtain ⟨x, q, new, hrun, hle, hleads, hends⟩ := h marks
  cases hends with
  | @ok a hw hgain =>
      obtain ⟨y, r, more, hrun', hle', hleads', hends'⟩ :=
        hf a q hw hgain (hleads.le hpos) (marks ++ new)
      refine ⟨y, r, new ++ more, ?_, Nat.le_trans hle hle', hleads.append hleads', ?_⟩
      · rw [bind_of_ok hrun, hrun', List.append_assoc]
      · exact hends'.later (Window.bind_of_ok hw g) (by omega)
  | halt hw =>
      exact ⟨_, q, new, bind_of_error hrun f, hle, hleads, .halt (Window.bind_of_error hw g)⟩
  | endless hw =>
      exact ⟨_, q, new, bind_of_error hrun f, hle, hleads, .endless (Window.bind_of_error hw g)⟩

theorem bind {total : Nat} {f : α → MarkedWalk β} {g : α → Walk β} (hpos : pos ≤ n)
    (h : Keeps n gain t w pos)
    (hf : ∀ a q, w pos = .ok (a, q) → pos + gain ≤ q → q ≤ n →
      Keeps n (total - gain) (f a) (g a) q) :
    Keeps n total (t >>= f) (w >>= g) pos :=
  h.bind_from hpos fun a q hw hgain hq => (hf a q hw hgain hq).mono (by omega)

/-- Asking for the index changes nothing. -/
theorem position {v : Window} {f : Nat → MarkedWalk α} {g : Nat → Walk α}
    (h : Keeps n gain (f pos) (g pos) pos) :
    Keeps n gain ((gait v.tokens).position >>= f) (v.gait.position >>= g) pos := by
  intro marks
  obtain ⟨x, q, new, hrun, hle, hleads, hends⟩ := h marks
  exact ⟨x, q, new, hrun, hle, hleads, hends.later rfl (Nat.le_refl _)⟩

/-- A mark behind a walk that is in order there. -/
theorem noting {a : Nat → Act} (h : Keeps n gain t w pos) (hpos : pos ≤ n)
    (hmark : ∀ q, pos + gain ≤ q → q ≤ n → Mark.Fits n q ⟨a pos, q⟩) :
    Keeps n gain (noting a t) w pos := by
  intro marks
  obtain ⟨x, q, new, hrun, hle, hleads, hends⟩ := h marks
  cases hends with
  | @ok b hw hgain =>
      have hfits := hmark q hgain (hleads.le hpos)
      refine ⟨.ok b, q, new ++ [⟨a pos, q⟩], ?_, hle, hleads.append (.single hfits), .ok hw hgain⟩
      rw [noting_of_ok hrun, List.append_assoc]
  | halt hw => exact ⟨_, q, new, noting_of_error hrun a, hle, hleads, .halt hw⟩
  | endless hw => exact ⟨_, q, new, noting_of_error hrun a, hle, hleads, .endless hw⟩

/-- Behind an error the handler has to take what is still to be taken. -/
theorem rescue {v : Window} {f : α → β} {handle : SyntaxError → MarkedWalk β}
    {g : SyntaxError → Walk β} (h : Keeps n gain t w pos) (hpos : pos ≤ n)
    (hhandle : ∀ e q, pos ≤ q → q ≤ n → Keeps n (pos + gain - q) (handle e) (g e) q) :
    Keeps n gain (rescue t f handle) (v.gait.rescue w f g) pos := by
  intro marks
  obtain ⟨x, q, new, hrun, hle, hleads, hends⟩ := h marks
  cases hends with
  | ok hok hgain =>
      refine ⟨_, q, new, ?_, hle, hleads, .ok (Window.rescue_of_ok hok f g) hgain⟩
      rw [MarkedWalk.rescue, hrun]
  | @halt e hhalt =>
      obtain ⟨y, r, more, hrun', hle', hleads', hends'⟩ :=
        hhandle e q hle (hleads.le hpos) (marks ++ new)
      refine ⟨y, r, new ++ more, ?_, Nat.le_trans hle hle', hleads.append hleads', ?_⟩
      · simp only [MarkedWalk.rescue, hrun, hrun', List.append_assoc]
      · exact hends'.later (Window.rescue_of_halt hhalt f g) (by omega)
  | endless hendless =>
      refine ⟨_, q, new, ?_, hle, hleads, .endless ?_⟩
      · rw [MarkedWalk.rescue, hrun]
      · simp only [Window.gait, hendless]

end Keeps

theorem forward_keeps {v : Window} {n pos : Nat} (hlt : pos < n) :
    Keeps n 1 (gait v.tokens).forward v.gait.forward pos :=
  fun _ => ⟨.ok (), pos + 1, [⟨.move, pos + 1⟩], rfl, Nat.le_succ pos, .single ⟨hlt, rfl⟩,
    .ok rfl (Nat.le_refl _)⟩

section
variable {v : Window} {s : TokenStream} (h : v.Shows s) (hv : v.first = 0) {pos : Nat}
include h hv

theorem peek_keeps (hpos : pos ≤ s.body.length) :
    Keeps s.body.length 0 ((gait v.tokens).peek) v.gait.peek pos := by
  intro marks
  obtain ⟨behind, htokens⟩ := h.tokens
  have hget := Segment.getElem?_append_stop s.body s.stop behind hpos
  rw [← htokens] at hget
  have hrun : (gait v.tokens).peek ⟨pos, marks⟩ =
      token v.tokens[pos]? ⟨pos, marks ++ [⟨.look, pos⟩]⟩ := rfl
  rw [hget] at hrun
  exact ⟨_, pos, [⟨.look, pos⟩], hrun, Nat.le_refl _, .single ⟨hpos, rfl⟩,
    .ok (h.peek_eq (by omega) hpos) (Nat.le_refl _)⟩

theorem previous_eq (hone : 1 ≤ pos) (hpos : pos ≤ s.body.length) :
    v.gait.previous pos = .ok ((s.body.drop (pos - 1)).headD s.stop, pos) := by
  obtain ⟨before, rfl⟩ : ∃ before, pos = before + 1 := ⟨pos - 1, by omega⟩
  change v.see before (before + 1) = _
  rw [Window.see, h.at?_eq (by omega) (Nat.le_of_succ_le hpos)]
  rfl

theorem previous_keeps (hone : 1 ≤ pos) (hpos : pos ≤ s.body.length) :
    Keeps s.body.length 0 ((gait v.tokens).previous) v.gait.previous pos := by
  intro marks
  obtain ⟨behind, htokens⟩ := h.tokens
  have hget := Segment.getElem?_append_stop s.body s.stop behind (q := pos - 1) (by omega)
  rw [← htokens] at hget
  have hrun : (gait v.tokens).previous ⟨pos, marks⟩ =
      token (if pos = 0 then v.tokens.getLast? else v.tokens[pos - 1]?)
        ⟨pos, marks ++ [⟨.lookBack, pos⟩]⟩ := rfl
  rw [if_neg (by omega), hget] at hrun
  exact ⟨_, pos, [⟨.lookBack, pos⟩], hrun, Nat.le_refl _, .single ⟨hpos, rfl, hone⟩,
    .ok (previous_eq h hv hone hpos) (Nat.le_refl _)⟩

theorem atEnd_keeps (hpos : pos ≤ s.body.length) :
    Keeps s.body.length 0 ((gait v.tokens).atEnd) v.gait.atEnd pos :=
  (peek_keeps h hv hpos).bind hpos fun t _ _ _ _ => .pure (decide (t.kind = .eof))

theorem atEnd_eq (hpos : pos ≤ s.body.length) :
    v.gait.atEnd pos = .ok (decide (pos = s.body.length), pos) := by
  rcases Nat.lt_or_eq_of_le hpos with hlt | rfl
  · rw [h.atEnd_next (by omega) (List.drop_eq_getElem_cons hlt), decide_eq_false (by omega)]
  · rw [h.atEnd_end (by omega), decide_eq_true rfl]

/-- A step is taken where there is a token to be passed. -/
theorem advance_keeps (hlt : pos < s.body.length) :
    Keeps s.body.length 1 ((gait v.tokens).advance) v.gait.advance pos := by
  have hpos := Nat.le_of_lt hlt
  refine (atEnd_keeps h hv hpos).bind hpos fun b q hb _ _ => ?_
  rw [atEnd_eq h hv hpos, decide_eq_false (by omega)] at hb
  cases hb
  rw [if_neg Bool.false_ne_true, if_neg Bool.false_ne_true]
  exact (forward_keeps hlt).bind hpos fun _ q _ hq hqle => previous_keeps h hv (by omega) hqle

theorem check_keeps (hpos : pos ≤ s.body.length) (k : Kind) :
    Keeps s.body.length 0 ((gait v.tokens).check k) (v.gait.check k) pos := by
  refine (atEnd_keeps h hv hpos).bind hpos fun b q _ _ hq => ?_
  cases b with
  | true => exact .pure false
  | false => exact (peek_keeps h hv hq).bind hq fun t _ _ _ _ => .pure (decide (t.kind = k))

theorem lt_of_check (hpos : pos ≤ s.body.length) {k : Kind} {q : Nat}
    (hcheck : v.gait.check k pos = .ok (true, q)) : q = pos ∧ pos < s.body.length := by
  rcases Nat.lt_or_eq_of_le hpos with hlt | rfl
  · rw [h.check_next (by omega) (List.drop_eq_getElem_cons hlt)] at hcheck
    simp only [Except.ok.injEq, Prod.mk.injEq] at hcheck
    exact ⟨hcheck.2.symm, hlt⟩
  · rw [h.check_end (by omega)] at hcheck
    cases hcheck

theorem accept_keeps (hpos : pos ≤ s.body.length) (ks : List Kind) :
    Keeps s.body.length 0 ((gait v.tokens).accept ks) (v.gait.accept ks) pos := by
  induction ks generalizing pos with
  | nil => exact .pure false
  | cons k ks ih =>
      refine (check_keeps h hv hpos k).bind hpos fun b q hb _ hq => ?_
      cases b with
      | false => exact ih hq
      | true =>
          obtain ⟨rfl, hlt⟩ := lt_of_check h hv hpos hb
          exact (advance_keeps h hv hlt).bind hpos fun _ _ _ _ _ => .pure true

/-- Behind a token that was accepted, there is a token to look back at. -/
theorem branch_keeps {gain gain' : Nat} {ks : List Kind} {x y : MarkedWalk α} {x' y' : Walk α}
    (hpos : pos ≤ s.body.length) (hgain : gain ≤ gain' + 1)
    (hx : pos < s.body.length → Keeps s.body.length gain' x x' (pos + 1))
    (hy : Keeps s.body.length gain y y' pos) :
    Keeps s.body.length gain (do if ← (gait v.tokens).accept ks then x else y)
      (do if ← v.gait.accept ks then x' else y') pos := by
  refine (accept_keeps h hv hpos ks).bind_from hpos fun b q hb _ _ => ?_
  rcases Nat.lt_or_eq_of_le hpos with hlt | rfl
  · rw [h.accept_next (by omega) (List.drop_eq_getElem_cons hlt)] at hb
    cases hb
    by_cases hk : s.body[pos].kind ∈ ks
    · simp only [hk, decide_true, if_true]
      exact (hx hlt).mono (by omega)
    · simp only [hk, decide_false, Bool.false_eq_true, if_false]
      exact hy.mono (by omega)
  · rw [h.accept_end (by omega)] at hb
    cases hb
    rw [if_neg Bool.false_ne_true, if_neg Bool.false_ne_true]
    exact hy.mono (by omega)

theorem fail_keeps {gain : Nat} (hpos : pos ≤ s.body.length) (expected : Expectation) :
    Keeps s.body.length gain ((gait v.tokens).fail expected : MarkedWalk α)
      (v.gait.fail expected) pos := by
  refine (peek_keeps h hv hpos).bind hpos fun t q _ _ _ => fun marks => ?_
  refine ⟨.error (.halt ⟨expected, t⟩ q), q, [], ?_, Nat.le_refl _, .here, .halt rfl⟩
  rw [List.append_nil]
  rfl

theorem consume_keeps (hpos : pos ≤ s.body.length) (k : Kind) (missing : Expectation) :
    Keeps s.body.length 1 ((gait v.tokens).consume k missing) (v.gait.consume k missing) pos := by
  refine (check_keeps h hv hpos k).bind hpos fun b q hb _ hq => ?_
  cases b with
  | false => exact fail_keeps h hv hq missing
  | true =>
      obtain ⟨rfl, hlt⟩ := lt_of_check h hv hpos hb
      exact (advance_keeps h hv hlt).bind hpos fun _ _ _ _ _ => .pure ()

theorem primary_keeps {nested : MarkedWalk Expr} {inner : Walk Expr}
    (hnested : ∀ q ≤ s.body.length, Keeps s.body.length 1 nested inner q)
    (hpos : pos ≤ s.body.length) :
    Keeps s.body.length 1 ((gait v.tokens).primary nested) (v.gait.primary inner) pos := by
  have hliteral (x : Expr) (_ : pos < s.body.length) :
      Keeps s.body.length 0 (pure x) (pure x) (pos + 1) := .pure x
  have hvalue (hlt : pos < s.body.length) : Keeps s.body.length 0
      (do return Expr.literal (← (gait v.tokens).previous).literal)
      (do return Expr.literal (← v.gait.previous).literal) (pos + 1) :=
    (previous_keeps h hv (by omega) hlt).bind hlt fun t _ _ _ _ => .pure (Expr.literal t.literal)
  have hgroup (hlt : pos < s.body.length) : Keeps s.body.length 0
      (do
        let e ← nested
        (gait v.tokens).consume .rightParen .closingParen
        return Expr.grouping e)
      (do
        let e ← inner
        v.gait.consume .rightParen .closingParen
        return Expr.grouping e) (pos + 1) :=
    (hnested (pos + 1) hlt).bind hlt fun e _ _ _ hq =>
      (consume_keeps h hv hq .rightParen .closingParen).bind hq fun _ _ _ _ _ =>
        .pure (Expr.grouping e)
  refine branch_keeps h hv hpos (Nat.le_refl 1) (hliteral _) ?_
  refine branch_keeps h hv hpos (Nat.le_refl 1) (hliteral _) ?_
  refine branch_keeps h hv hpos (Nat.le_refl 1) (hliteral _) ?_
  refine branch_keeps h hv hpos (Nat.le_refl 1) hvalue ?_
  exact branch_keeps h hv hpos (Nat.le_refl 1) hgroup (fail_keeps h hv hpos .operand)

theorem unary_keeps {nested : MarkedWalk Expr} {inner : Walk Expr}
    (hnested : ∀ q ≤ s.body.length, Keeps s.body.length 1 nested inner q) (n : Nat)
    (hpos : pos ≤ s.body.length) :
    Keeps s.body.length 1 ((gait v.tokens).unary nested n) (v.gait.unary inner n) pos := by
  induction n generalizing pos with
  | zero => exact .endless
  | succ n ih =>
      refine Keeps.noting ?_ hpos fun q hq hqle => ⟨hqle, rfl, hq⟩
      refine branch_keeps h hv hpos (Nat.le_refl 1) (fun hlt => ?_)
        (primary_keeps h hv hnested hpos)
      refine (previous_keeps h hv (by omega) hlt).bind hlt fun op q _ _ hq => ?_
      exact (ih hq).bind hq fun e _ _ _ _ => .pure (Expr.unary op e)

section
variable {operand : MarkedWalk Expr} {inner : Walk Expr}
  (hoperand : ∀ q ≤ s.body.length, Keeps s.body.length 1 operand inner q)
include hoperand

theorem chain_keeps (l : Expr.Level) (n : Nat) (left : Expr) (hpos : pos ≤ s.body.length) :
    Keeps s.body.length 0 ((gait v.tokens).chain l operand n left)
      (v.gait.chain l inner n left) pos := by
  induction n generalizing pos left with
  | zero => exact .endless
  | succ n ih =>
      refine branch_keeps h hv hpos (Nat.zero_le 1) (fun hlt => ?_) (.pure left)
      refine (previous_keeps h hv (by omega) hlt).bind hlt fun op q _ _ hq => ?_
      exact (hoperand q hq).bind hq fun right r _ _ hr => ih (.binary left op right) hr

theorem level_keeps (n : Nat) (l : Expr.Level) (hpos : pos ≤ s.body.length) :
    Keeps s.body.length 1 ((gait v.tokens).level n l operand) (v.gait.level n l inner) pos := by
  refine Keeps.noting ?_ hpos fun q hq hqle => ⟨hqle, rfl, hq⟩
  exact (hoperand pos hpos).bind hpos fun left q _ _ hq => chain_keeps h hv hoperand l n left hq

end

theorem expression_keeps (n depth : Nat) (hpos : pos ≤ s.body.length) :
    Keeps s.body.length 1 ((gait v.tokens).expression n depth) (v.gait.expression n depth) pos := by
  induction depth generalizing pos with
  | zero => exact .endless
  | succ depth ih =>
      have hu (q : Nat) (hq : q ≤ s.body.length) := unary_keeps h hv (fun _ hr => ih hr) n hq
      have hf (q : Nat) (hq : q ≤ s.body.length) := level_keeps h hv hu n .factor hq
      have ht (q : Nat) (hq : q ≤ s.body.length) := level_keeps h hv hf n .term hq
      have hc (q : Nat) (hq : q ≤ s.body.length) := level_keeps h hv ht n .comparison hq
      exact level_keeps h hv hc n .equality hpos

/-- An expression and what has to stand behind it. -/
theorem closed_keeps (n : Nat) (missing : Expectation) (f : Expr → Stmt)
    (hpos : pos ≤ s.body.length) :
    Keeps s.body.length 1
      (do
        let e ← (gait v.tokens).expression n n
        (gait v.tokens).consume .semicolon missing
        return f e)
      (do
        let e ← v.gait.expression n n
        v.gait.consume .semicolon missing
        return f e) pos :=
  (expression_keeps h hv n n hpos).bind hpos fun e _ _ _ hq =>
    (consume_keeps h hv hq .semicolon missing).bind hq fun _ _ _ _ _ => .pure (f e)

theorem statement_keeps (n : Nat) (hpos : pos ≤ s.body.length) :
    Keeps s.body.length 1 ((gait v.tokens).statement n) (v.gait.statement n) pos :=
  branch_keeps h hv hpos (Nat.le_succ 1) (fun hlt => closed_keeps h hv n _ .print hlt)
    (closed_keeps h hv n _ .expression hpos)

theorem skip_keeps (n : Nat) (hone : 1 ≤ pos) (hpos : pos ≤ s.body.length) :
    Keeps s.body.length 0 ((gait v.tokens).skip n) (v.gait.skip n) pos := by
  induction n generalizing pos with
  | zero => exact .endless
  | succ n ih =>
      refine (atEnd_keeps h hv hpos).bind hpos fun b q hb _ _ => ?_
      rw [atEnd_eq h hv hpos] at hb
      cases hb
      by_cases hend : pos = s.body.length
      · rw [decide_eq_true hend]
        exact .pure ()
      rw [decide_eq_false hend, if_neg Bool.false_ne_true, if_neg Bool.false_ne_true]
      have hlt : pos < s.body.length := by omega
      refine (previous_keeps h hv hone hpos).bind hpos fun t q ht _ _ => ?_
      rw [previous_eq h hv hone hpos] at ht
      cases ht
      split
      · exact .pure ()
      refine (peek_keeps h hv hpos).bind hpos fun u q hu _ _ => ?_
      rw [h.peek_eq (by omega) hpos] at hu
      cases hu
      split
      · exact .pure ()
      · exact (advance_keeps h hv hlt).bind hpos fun _ q _ hq hqle => ih (by omega) hqle

/-- At least the token at `start` is given up. -/
theorem synchronize_keeps (n : Nat) {start : Nat} (hlt : start < s.body.length) (hle : start ≤ pos)
    (hpos : pos ≤ s.body.length) :
    Keeps s.body.length (start + 1 - pos) ((gait v.tokens).synchronize n start)
      (v.gait.synchronize n start) pos := by
  have hskip (q : Nat) (hq : start < q) (hqle : q ≤ s.body.length) :=
    skip_keeps h hv n (Nat.zero_lt_of_lt hq) hqle
  refine Keeps.position ?_
  split
  · rename_i hstart
    subst hstart
    refine (advance_keeps h hv hlt).bind hpos fun _ q _ hq hqle => (hskip q hq hqle).mono ?_
    omega
  · exact (hskip pos (by omega) hpos).mono (by omega)

/-- A turn takes at least one token, whether a statement is read or given up. -/
theorem segment_keeps (n : Nat) (hlt : pos < s.body.length) :
    Keeps s.body.length 1 ((gait v.tokens).segment n) (v.gait.segment n) pos := by
  have hpos := Nat.le_of_lt hlt
  refine Keeps.position (Keeps.rescue (statement_keeps h hv n hpos) hpos fun e q hle hq => ?_)
  exact (synchronize_keeps h hv n hlt hle hq).bind hq fun _ r _ hr _ =>
    (Keeps.pure (Segment.error e)).mono (by omega)

theorem segments_keeps (n m : Nat) (hpos : pos ≤ s.body.length) :
    Keeps s.body.length 0 ((gait v.tokens).segments n m) (v.gait.segments n m) pos := by
  induction m generalizing pos with
  | zero => exact .endless
  | succ m ih =>
      refine (atEnd_keeps h hv hpos).bind hpos fun b q hb _ _ => ?_
      rw [atEnd_eq h hv hpos] at hb
      cases hb
      by_cases hend : pos = s.body.length
      · rw [decide_eq_true hend]
        exact .pure []
      rw [decide_eq_false hend, if_neg Bool.false_ne_true, if_neg Bool.false_ne_true]
      have hlt : pos < s.body.length := by omega
      have hturn : Keeps s.body.length 1 (noting .turn ((gait v.tokens).segment n))
          (v.gait.segment n) pos :=
        Keeps.noting (segment_keeps h hv n hlt) hpos fun q hq hqle => ⟨hqle, rfl, hq⟩
      refine hturn.bind hpos fun x q _ _ hq => ?_
      exact (ih hq).bind hq fun xs _ _ _ _ => .pure (x :: xs)

theorem onlyExpression_keeps (n : Nat) (hpos : pos ≤ s.body.length) :
    Keeps s.body.length 0 ((gait v.tokens).onlyExpression n) (v.gait.onlyExpression n) pos := by
  refine (expression_keeps h hv n n hpos).bind hpos fun e q _ _ hq => ?_
  refine (atEnd_keeps h hv hq).bind hq fun b r _ _ hr => ?_
  cases b with
  | true => exact .pure e
  | false => exact fail_keeps h hv hr .endOfExpression

theorem wholeExpression_keeps (n : Nat) (hpos : pos ≤ s.body.length) :
    Keeps s.body.length 0 ((gait v.tokens).wholeExpression n) (v.gait.wholeExpression n) pos :=
  Keeps.rescue (onlyExpression_keeps h hv n hpos) hpos fun e q hle hq =>
    (Keeps.pure (Except.error e)).mono (by omega)

theorem answer_keeps (n : Nat) {q : Cursor.Call} (hq : q ≠ .rewind) (hpos : pos ≤ s.body.length) :
    Keeps s.body.length 0 ((gait v.tokens).answer n q) (v.answer n q) pos := by
  have hmark (r : Nat) (hr : pos ≤ r) (hle : r ≤ s.body.length) :
      Mark.Fits s.body.length r ⟨.called pos, r⟩ := ⟨hle, rfl, hr⟩
  cases q with
  | rewind => exact absurd rfl hq
  | parse =>
      refine Keeps.noting ?_ hpos hmark
      exact (segments_keeps h hv n n hpos).bind hpos fun xs _ _ _ _ =>
        .pure (Cursor.Answer.program (Program.ofSegments xs))
  | parseExpression =>
      refine Keeps.noting ?_ hpos hmark
      exact (wholeExpression_keeps h hv n hpos).bind hpos fun x _ _ _ _ =>
        .pure (Cursor.Answer.expression x.toOption)

/-- A call is answered as the cursor of the stream answers it. -/
theorem answer_eq {n : Nat} (hn : s.body.length < n) (hpos : pos ≤ s.body.length) (r : Reporter)
    (q : Cursor.Call) (marks : List Mark) :
    ∃ new, (gait v.tokens).answer n q ⟨pos, marks⟩ = (.ok (Cursor.call r ⟨s, pos⟩ q).value.1,
        ⟨(Cursor.call r ⟨s, pos⟩ q).value.2.pos, marks ++ new⟩) ∧
      Leads s.body.length pos new (Cursor.call r ⟨s, pos⟩ q).value.2.pos := by
  by_cases hq : q = .rewind
  · subst hq
    exact ⟨[⟨.rewound, 0⟩], rfl, .single ⟨Nat.zero_le _, rfl⟩⟩
  · have hwalk := h.answer_eq (n := n) (by omega) hpos (by omega) r q
    obtain ⟨x, p, new, hrun, _, hleads, hends⟩ := answer_keeps h hv n hq hpos marks
    cases hends with
    | ok hok _ =>
        rw [hwalk] at hok
        cases hok
        exact ⟨new, hrun, hleads⟩
    | halt hhalt =>
        rw [hwalk] at hhalt
        cases hhalt
    | endless hendless =>
        rw [hwalk] at hendless
        cases hendless

/-- Marks in order are left by each call, and so by any number of them. -/
theorem answerAll_eq {n : Nat} (hn : s.body.length < n) (hpos : pos ≤ s.body.length)
    (r : Reporter) (qs : List Cursor.Call) (marks : List Mark) :
    ∃ new, answerAll v.tokens n qs ⟨pos, marks⟩ = (.ok (Cursor.answers r ⟨s, pos⟩ qs),
        ⟨(Cursor.after r ⟨s, pos⟩ qs).2.pos, marks ++ new⟩) ∧
      Leads s.body.length pos new (Cursor.after r ⟨s, pos⟩ qs).2.pos := by
  induction qs generalizing pos r marks with
  | nil =>
      refine ⟨[], ?_, .here⟩
      rw [List.append_nil]
      rfl
  | cons q qs ih =>
      obtain ⟨new, hrun, hleads⟩ := answer_eq h hv hn hpos r q marks
      rw [Cursor.answers, Cursor.after]
      have hstream := Cursor.call_stream r ⟨s, pos⟩ q
      generalize Cursor.call r ⟨s, pos⟩ q = done at hrun hleads hstream ⊢
      obtain ⟨⟨a, ⟨s', p⟩⟩, r', events⟩ := done
      obtain rfl : s' = s := hstream
      obtain ⟨more, hrun', hleads'⟩ := ih (hleads.le hpos) r' (marks ++ new)
      refine ⟨new ++ more, ?_, hleads.append hleads'⟩
      rw [answerAll, bind_of_ok hrun, bind_of_ok hrun', List.append_assoc]
      rfl

end

end MarkedWalk

end Lox

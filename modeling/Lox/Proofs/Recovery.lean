import Lox.Proofs.Acceptance
import Mathlib.Order.Bounds.Basic

/-!
# Recovery from syntax errors

Reading a program cuts its tokens into consecutive stretches that are not
empty. Each of them is one statement, or one error together with all that was
given up for it. Nothing is lost, repeated or reordered, and an error ends at
the first boundary behind the place where it was found.
-/
namespace Lox

namespace Segment
open Reader

/-- The keywords in front of which a statement is taken to begin. -/
def openers : List Kind :=
  [.classWord, .funWord, .varWord, .forWord, .ifWord, .whileWord, .printWord, .returnWord]

/-- A place between two tokens where a statement may begin after an error:
behind a semicolon, in front of a keyword that begins a statement, or at the
end. -/
def Boundary (w : List Token) (b : Nat) : Prop :=
  (∃ t, 0 < b ∧ w[b - 1]? = some t ∧ t.kind = .semicolon) ∨
  (∃ t, w[b]? = some t ∧ t.kind ∈ openers) ∨
  b = w.length

/-- The segment that the tokens from index `a` up to index `b` amount to. In an
error segment, `q` is where the statement that begins at `a` stopped. -/
inductive Covers (s : TokenStream) (a b : Nat) : Segment → Prop
  | statement {st : Stmt} : Stmt.Derives ((s.body.take b).drop a) st →
      Covers s a b (.statement st)
  | error {e : SyntaxError} {q : Nat} :
      (∀ w st, w <+: s.body.drop a → ¬ Stmt.Derives w st) →
      Stmt.read (s.body.drop a) = .error ⟨e.expected, s.body.drop q⟩ →
      (s.body ++ [s.stop])[q]? = some e.token → a ≤ q → q ≤ b →
      IsLeast {c | max q (a + 1) ≤ c ∧ Boundary s.body c} b →
      Covers s a b (.error e)

/-- Consecutive segments from index `a` to the end, none of them empty. -/
inductive Cuts (s : TokenStream) : Nat → List Segment → Prop
  | done : Cuts s s.body.length []
  | next {a b : Nat} {x : Segment} {xs : List Segment} : a < b → b ≤ s.body.length →
      Covers s a b x → Cuts s b xs → Cuts s a (x :: xs)

theorem beginsStatement_iff (k : Kind) : k.beginsStatement = true ↔ k ∈ openers := by
  cases k <;> simp [Kind.beginsStatement, openers]

/-- Behind the token at index `c`, skipping stops at the first boundary. -/
theorem skip_isLeast (w : List Token) {c : Nat} {p : Token} (hp : w[c]? = some p) :
    ∃ b, skip p.kind (w.drop (c + 1)) = w.drop b ∧
      IsLeast {i | c + 1 ≤ i ∧ Boundary w i} b := by
  induction hn : w.length - c generalizing c p with
  | zero =>
      have hlt := (List.getElem?_eq_some_iff.mp hp).choose
      omega
  | succ n ih =>
      have hlt := (List.getElem?_eq_some_iff.mp hp).choose
      have stay (h : Boundary w (c + 1)) : IsLeast {i | c + 1 ≤ i ∧ Boundary w i} (c + 1) :=
        ⟨⟨Nat.le_refl _, h⟩, fun i hi => hi.1⟩
      cases hd : w.drop (c + 1) with
      | nil =>
          have hend := List.drop_eq_nil_iff.mp hd
          refine ⟨c + 1, by rw [hd]; rfl, stay (.inr (.inr (by omega)))⟩
      | cons t ts =>
          have ht : w[c + 1]? = some t := by
            rw [← List.head?_drop, hd]
            rfl
          have hts : ts = w.drop (c + 2) := by
            rw [← List.tail_drop, hd]
            rfl
          rw [skip]
          split
          · rename_i hstop
            refine ⟨c + 1, hd.symm, stay ?_⟩
            rcases hstop with hsemi | hbegin
            · exact .inl ⟨p, by omega, hp, hsemi⟩
            · exact .inr (.inl ⟨t, ht, (beginsStatement_iff t.kind).mp hbegin⟩)
          · rename_i hgo
            obtain ⟨b, hb, hleast⟩ := ih ht (by omega)
            refine ⟨b, by rw [hts]; exact hb, ⟨by have := hleast.1.1; omega, hleast.1.2⟩, ?_⟩
            intro i hi
            -- The boundaries from `c + 1` on are those from `c + 2` on.
            have hne : i ≠ c + 1 := by
              rintro rfl
              rcases hi.2 with ⟨u, _, hu, hk⟩ | ⟨u, hu, hk⟩ | hlen
              · rw [Nat.add_sub_cancel, hp] at hu
                cases hu
                exact hgo (.inl hk)
              · rw [ht] at hu
                cases hu
                exact hgo (.inr ((beginsStatement_iff _).mpr hk))
              · have := (List.getElem?_eq_some_iff.mp ht).choose
                omega
            exact hleast.2 ⟨by have := hi.1; omega, hi.2⟩

/-- After an error at index `q` in the statement that begins at `a`, at least the
token at `a` is passed over. -/
theorem resume_drop {w : List Token} {a q c : Nat} {p : Token} (hq : q ≤ w.length)
    (hc : c + 1 = max q (a + 1)) (hp : w[c]? = some p) :
    resume (w.drop a) (w.drop q) = skip p.kind (w.drop (c + 1)) := by
  have hlt := (List.getElem?_eq_some_iff.mp hp).choose
  have hdrop : (w.drop a).drop ((w.drop a).length - (w.drop q).length - 1) = w.drop c := by
    rw [List.drop_drop, List.length_drop, List.length_drop]
    congr 1
    omega
  have hget : w[c] = p := (List.getElem?_eq_some_iff.mp hp).choose_spec
  rw [resume, hdrop, List.drop_eq_getElem_cons hlt, hget]

/-- After an error at index `q` in the statement that begins at `a`, reading
goes on at the first boundary from both `q` and `a + 1` on. -/
theorem resume_isLeast (w : List Token) {a q : Nat} (ha : a < w.length)
    (hq : q ≤ w.length) :
    ∃ b, resume (w.drop a) (w.drop q) = w.drop b ∧
      IsLeast {i | max q (a + 1) ≤ i ∧ Boundary w i} b := by
  have hlt : max q (a + 1) - 1 < w.length := by omega
  have hc : max q (a + 1) - 1 + 1 = max q (a + 1) := by omega
  have hp := List.getElem?_eq_getElem hlt
  obtain ⟨b, hb, hleast⟩ := skip_isLeast w hp
  rw [hc] at hleast
  exact ⟨b, (resume_drop hq hc hp).trans hb, hleast⟩

/-- What a reader of statements leaves begins at some index of the tokens. -/
theorem exists_drop_of_suffix {w rest : List Token} {a : Nat} (h : rest <:+ w.drop a)
    (ha : a ≤ w.length) : ∃ q, a ≤ q ∧ q ≤ w.length ∧ rest = w.drop q := by
  have hle := h.length_le
  have heq := List.suffix_iff_eq_drop.mp h
  rw [List.drop_drop, List.length_drop] at heq
  rw [List.length_drop] at hle
  exact ⟨a + (w.length - a - rest.length), by omega, by omega, heq⟩

theorem getElem?_append_stop (w : List Token) (stop : Token) (behind : List Token) {q : Nat}
    (hq : q ≤ w.length) : (w ++ stop :: behind)[q]? = some ((w.drop q).headD stop) := by
  rw [← List.head?_drop, List.drop_append_of_le_length hq]
  cases w.drop q <;> rfl

theorem cuts_all (s : TokenStream) {a : Nat} (ha : a ≤ s.body.length) :
    Cuts s a (all s.stop (s.body.drop a)) := by
  induction hts : s.body.drop a using Segment.induct generalizing a with
  | nil =>
      have hend := List.drop_eq_nil_iff.mp hts
      obtain rfl : a = s.body.length := by omega
      exact .done
  | ok ts st rest hr ih =>
      subst hts
      obtain ⟨w, hw, hd⟩ := Stmt.read_sound hr
      have hlen := congrArg List.length hw
      rw [List.length_append, List.length_drop] at hlen
      have hpos := List.length_pos_iff.mpr hd.ne_nil
      have hrest : s.body.drop (a + w.length) = rest := by
        rw [← List.drop_drop, hw, List.drop_left]
      have hseg : (s.body.take (a + w.length)).drop a = w := by
        rw [List.drop_take, Nat.add_sub_cancel_left, hw, List.take_left]
      rw [all_of_ok hr]
      have hb : a + w.length ≤ s.body.length := by omega
      refine .next (by omega) hb (.statement ?_) (ih hb hrest)
      rwa [hseg]
  | error ts x hne hr ih =>
      subst hts
      have halt : a < s.body.length := by
        have hpos := List.length_pos_iff.mpr hne
        rw [List.length_drop] at hpos
        omega
      have hsuffix := Stmt.read_trims (s.body.drop a)
      rw [hr] at hsuffix
      obtain ⟨q, haq, hq, hrest⟩ := exists_drop_of_suffix hsuffix ha
      simp only [remaining] at hrest
      obtain ⟨b, hb, hleast⟩ := resume_isLeast s.body halt hq
      have hend : b ≤ s.body.length :=
        hleast.2 ⟨by omega, .inr (.inr rfl)⟩
      have hfrom := hleast.1.1
      rw [all_of_error hne hr]
      refine .next (by omega) hend (.error ?_ ?_ ?_ haq (by omega) hleast)
        (ih hend (by rw [hrest, hb]))
      · rintro w st ⟨v, hv⟩ hd
        have hok := hd.read_eq_ok v
        rw [hv, hr] at hok
        cases hok
      · rw [hr, ← hrest]
        rfl
      · rw [getElem?_append_stop s.body s.stop [] hq, ← hrest]
        rfl

end Segment

namespace TokenStream
open Segment

/-- Reading a program cuts all its tokens into segments, and gives the statements
and the errors of these, each in order. -/
theorem parse_cuts_everything (ts : List Token) (h : Closed ts) (r : Reporter) :
    ∃ s, TokenStream.ofTokens? ts = some s ∧
      s.body = ts.take (ts.findIdx (·.kind = .eof)) ∧
      ts[ts.findIdx (·.kind = .eof)]? = some s.stop ∧
      (∃ xs, Cuts s 0 xs ∧
        (r.parse (Cursor.start s)).value.1.statements = xs.filterMap Segment.statement? ∧
        (r.parse (Cursor.start s)).value.1.errors = xs.filterMap Segment.error?) ∧
      (r.parse (Cursor.start s)).value.2.pos = ts.findIdx (·.kind = .eof) := by
  obtain ⟨stop, hstop, hs⟩ := h.ofTokens?
  refine ⟨_, hs, front_eq_take ts, hstop, ⟨_, cuts_all _ (Nat.zero_le _), ?_, ?_⟩, ?_⟩
  · rfl
  · rfl
  · exact front_length ts

/-- A statement between a `+` and a `!`, neither of which begins a statement. -/
def printBetweenErrors : List Token :=
  [⟨.plus, "+", .nil, 1⟩, ⟨.semicolon, ";", .nil, 1⟩, ⟨.printWord, "print", .nil, 2⟩,
    ⟨.trueWord, "true", .nil, 2⟩, ⟨.semicolon, ";", .nil, 2⟩, ⟨.bang, "!", .nil, 3⟩,
    ⟨.eof, "", .nil, 3⟩]

/-- Two errors around a statement: the first ends behind its semicolon, the
second at the end. -/
theorem parse_cuts_everything_errors :
    Closed printBetweenErrors ∧
      ∃ xs, Cuts ⟨front printBetweenErrors, ⟨.eof, "", .nil, 3⟩⟩ 0 xs ∧
        [.print (.literal (.bool true))] = xs.filterMap Segment.statement? ∧
        [⟨.operand, ⟨.plus, "+", .nil, 1⟩⟩, ⟨.operand, ⟨.eof, "", .nil, 3⟩⟩] =
          xs.filterMap Segment.error? := by
  have h : Closed printBetweenErrors := ⟨_, rfl, rfl⟩
  obtain ⟨s, hs, _, _, hxs, _⟩ := parse_cuts_everything _ h Reporter.fresh
  obtain rfl := Option.some.inj hs
  exact ⟨h, hxs⟩

end TokenStream

end Lox

import Lox.Proofs.Reading
import Lox.Run

/-!
# Programs against the grammar

The statement loop runs until no token is left, and the bound on the number of
segments is never what ends it. From this follows what is accepted: a token
stream gives an expression, or statements without an error, exactly if the
grammar derives the tokens in front of its first end token, and it then gives
the one tree that the grammar has for them.
-/
namespace Lox

namespace TokenStream

/-- An end token is the last of the tokens. Others may stand in front of it. -/
def Closed (ts : List Token) : Prop := ∃ t ∈ ts.getLast?, t.kind = .eof

/-- The tokens in front of the first end token. -/
def front (ts : List Token) : List Token := ts.takeWhile (·.kind ≠ .eof)

theorem front_eq_take (ts : List Token) :
    front ts = ts.take (ts.findIdx (·.kind = .eof)) := by
  unfold front
  rw [List.takeWhile_eq_take_findIdx_not]
  simp

theorem front_length (ts : List Token) :
    (front ts).length = ts.findIdx (·.kind = .eof) := by
  rw [front_eq_take, List.length_take]
  exact Nat.min_eq_left List.findIdx_le_length

/-- Closed tokens can be read, up to their first end token. -/
theorem Closed.ofTokens? {ts : List Token} (h : Closed ts) :
    ∃ stop, ts[ts.findIdx (·.kind = .eof)]? = some stop ∧
      ofTokens? ts = some ⟨front ts, stop⟩ := by
  obtain ⟨last, hlast, hk⟩ := h
  have hmem : last ∈ ts := List.mem_of_getLast? hlast
  have hlt : ts.findIdx (·.kind = .eof) < ts.length :=
    List.findIdx_lt_length_of_exists ⟨last, hmem, by simpa using hk⟩
  have hfind : ts.find? (·.kind = .eof) = some ts[ts.findIdx (·.kind = .eof)] := by
    rw [List.find?_eq_getElem?_findIdx, List.getElem?_eq_getElem hlt]
  refine ⟨ts[ts.findIdx (·.kind = .eof)], List.getElem?_eq_getElem hlt, ?_⟩
  have hl : ts.getLast? = some last := hlast
  unfold TokenStream.ofTokens?
  simp only [hl, hk, if_true, hfind]
  rfl

theorem ofTokens?_append_stop {w : List Token} {z : Token} (hw : ∀ t ∈ w, t.kind ≠ .eof)
    (hz : z.kind = .eof) : TokenStream.ofTokens? (w ++ [z]) = some ⟨w, z⟩ := by
  have htake : (w ++ [z]).takeWhile (·.kind ≠ .eof) = w := by
    rw [List.takeWhile_append_of_pos (by simpa using hw)]
    simp [hz]
  have hfind : (w ++ [z]).find? (·.kind = .eof) = some z := by
    rw [List.find?_append, List.find?_eq_none.mpr (by simpa using hw)]
    simp [hz]
  unfold TokenStream.ofTokens?
  simp only [List.getLast?_concat, hz, if_true, htake, hfind]
  rfl

end TokenStream

namespace Segment
open Reader

theorem skip_suffix (before : Kind) (ts : List Token) : skip before ts <:+ ts := by
  induction ts generalizing before with
  | nil => exact List.suffix_rfl
  | cons t ts ih =>
      rw [skip]
      split
      · exact List.suffix_rfl
      · exact (ih t.kind).trans (List.suffix_cons t ts)

theorem resume_suffix (ts rest : List Token) : resume ts rest <:+ ts := by
  unfold resume
  cases hd : ts.drop (ts.length - rest.length - 1) with
  | nil => exact List.nil_suffix
  | cons t us =>
      have hus : t :: us <:+ ts := hd ▸ List.drop_suffix _ ts
      exact (skip_suffix t.kind us).trans ((List.suffix_cons t us).trans hus)

/-- A failed statement gives up at least one token. -/
theorem resume_length_lt {ts : List Token} (h : ts ≠ []) (rest : List Token) :
    (resume ts rest).length < ts.length := by
  have hpos := List.length_pos_iff.mpr h
  unfold resume
  cases hd : ts.drop (ts.length - rest.length - 1) with
  | nil => exact hpos
  | cons t us =>
      have hle := (skip_suffix t.kind us).length_le
      have hlen := congrArg List.length hd
      simp only [List.length_drop, List.length_cons] at hlen
      simp only
      omega

theorem cut_nil (stop : Token) (n : Nat) : cut stop n [] = [] := by
  cases n <;> rfl

theorem cut_cons (stop : Token) (n : Nat) (t : Token) (ts : List Token) :
    cut stop (n + 1) (t :: ts) =
      match Stmt.read (t :: ts) with
      | .ok (s, rest) => statement s :: cut stop n rest
      | .error h => error (h.error stop) :: cut stop n (resume (t :: ts) h.rest) := by
  unfold cut Stmt.read
  rw [cutTelling]
  cases Reading.statement silent (t :: ts) <;> rfl

/-- A bound that covers the number of tokens makes no difference. -/
theorem cut_bound (stop : Token) {n m : Nat} {ts : List Token} (hn : ts.length ≤ n)
    (hm : ts.length ≤ m) : cut stop n ts = cut stop m ts := by
  induction n generalizing m ts with
  | zero =>
      obtain rfl := List.length_eq_zero_iff.mp (Nat.le_zero.mp hn)
      rw [cut_nil, cut_nil]
  | succ n ih =>
      cases ts with
      | nil => rw [cut_nil, cut_nil]
      | cons t ts =>
          simp only [List.length_cons] at hn hm
          obtain ⟨m, rfl⟩ : ∃ k, m = k + 1 := ⟨m - 1, by omega⟩
          rw [cut_cons, cut_cons]
          cases hr : Stmt.read (t :: ts) with
          | ok x =>
              have hlt := Stmt.read_advances (t :: ts) x.1 x.2 hr
              simp only [List.length_cons] at hlt ⊢
              rw [ih (m := m) (by omega) (by omega)]
          | error h =>
              have hlt := resume_length_lt (List.cons_ne_nil t ts) h.rest
              simp only [List.length_cons] at hlt ⊢
              rw [ih (m := m) (by omega) (by omega)]

/-- All segments of some tokens. -/
def all (stop : Token) (ts : List Token) : List Segment := cut stop ts.length ts

theorem all_of_ok {ts rest : List Token} {s : Stmt} (h : Stmt.read ts = .ok (s, rest))
    (stop : Token) : all stop ts = statement s :: all stop rest := by
  have hlt := Stmt.read_advances ts s rest h
  cases ts with
  | nil => simp at hlt
  | cons t ts =>
      simp only [List.length_cons] at hlt
      rw [all, List.length_cons, cut_cons, h, all]
      simp only
      rw [cut_bound stop (m := rest.length) (by omega) (Nat.le_refl _)]

theorem all_of_error {ts : List Token} {x : Halt} (hne : ts ≠ []) (h : Stmt.read ts = .error x)
    (stop : Token) : all stop ts = error (x.error stop) :: all stop (resume ts x.rest) := by
  have hlt := resume_length_lt hne x.rest
  cases ts with
  | nil => exact absurd rfl hne
  | cons t ts =>
      simp only [List.length_cons] at hlt
      rw [all, List.length_cons, cut_cons, h, all]
      simp only
      rw [cut_bound stop (m := (resume (t :: ts) x.rest).length) (by omega) (Nat.le_refl _)]

/-- The induction behind every statement about programs: over the segments,
each beginning where the one before it ends. -/
theorem induct {P : List Token → Prop} (nil : P [])
    (ok : ∀ ts s rest, Stmt.read ts = .ok (s, rest) → P rest → P ts)
    (error : ∀ ts x, ts ≠ [] → Stmt.read ts = .error x → P (resume ts x.rest) → P ts)
    (ts : List Token) : P ts := by
  induction hn : ts.length using Nat.strongRecOn generalizing ts with
  | ind n ih =>
      subst hn
      by_cases hne : ts = []
      · exact hne ▸ nil
      · cases hr : Stmt.read ts with
        | ok x =>
            have hlt := Stmt.read_advances ts x.1 x.2 hr
            exact ok ts x.1 x.2 hr (ih _ hlt x.2 rfl)
        | error x =>
            have hlt := resume_length_lt hne x.rest
            exact error ts x hne hr (ih _ hlt _ rfl)

end Segment

namespace Program
open Segment

theorem ofSegments_statement (s : Stmt) (xs : List Segment) :
    ofSegments (.statement s :: xs) =
      ⟨s :: (ofSegments xs).statements, (ofSegments xs).errors⟩ := rfl

theorem ofSegments_error (e : SyntaxError) (xs : List Segment) :
    ofSegments (.error e :: xs) = ⟨(ofSegments xs).statements, e :: (ofSegments xs).errors⟩ := rfl

theorem derivesAll_of_all (stop : Token) (ts : List Token) {ss : List Stmt}
    (h : ofSegments (all stop ts) = ⟨ss, []⟩) : Stmt.DerivesAll ts ss := by
  induction ts using Segment.induct generalizing ss with
  | nil =>
      have hss : [] = ss := congrArg statements h
      exact hss ▸ .nil
  | ok ts s rest hr ih =>
      rw [all_of_ok hr, ofSegments_statement] at h
      obtain ⟨w, rfl, hw⟩ := Stmt.read_sound hr
      have hss : s :: (ofSegments (all stop rest)).statements = ss := congrArg statements h
      have herr : (ofSegments (all stop rest)).errors = [] := congrArg errors h
      subst hss
      refine .cons hw (ih ?_)
      rw [← herr]
  | error ts x hne hr ih =>
      rw [all_of_error hne hr, ofSegments_error] at h
      have herr := congrArg errors h
      cases herr

theorem all_of_derivesAll (stop : Token) {ts : List Token} {ss : List Stmt}
    (h : Stmt.DerivesAll ts ss) : ofSegments (all stop ts) = ⟨ss, []⟩ := by
  induction h with
  | nil => rfl
  | @cons w v s ss hw _ ih => rw [all_of_ok (hw.read_eq_ok v), ofSegments_statement, ih]

/-- A program is read without an error exactly if it is a row of statements. -/
theorem ofStream_eq_iff (s : TokenStream) (ss : List Stmt) :
    ofStream s = ⟨ss, []⟩ ↔ Stmt.DerivesAll s.body ss :=
  ⟨derivesAll_of_all s.stop s.body, all_of_derivesAll s.stop⟩

end Program

namespace Reporter

theorem parseExpression_eq_some_iff (r : Reporter) (s : TokenStream) (e : Expr) :
    (r.parseExpression (Cursor.start s)).value.1 = some e ↔
      Expr.Derives .expression s.body e := by
  rw [← Expr.readAll_eq_ok_iff]
  unfold parseExpression Cursor.parseExpression
  have hahead : (Cursor.start s).ahead.body = s.body := rfl
  rw [hahead]
  cases Expr.readAll s.body <;> simp

theorem parse_program (r : Reporter) (s : TokenStream) :
    (r.parse (Cursor.start s)).value.1 = Program.ofStream s := rfl

end Reporter

namespace TokenStream

/-- What is accepted is what the grammar derives, tree for tree. -/
theorem accepted_iff_derived (ts : List Token) (h : Closed ts) (r : Reporter) :
    ∃ s, TokenStream.ofTokens? ts = some s ∧
      (∀ e, (r.parseExpression (Cursor.start s)).value.1 = some e ↔
        Expr.Derives .expression (front ts) e) ∧
      ((r.parseExpression (Cursor.start s)).value.1 = none ↔
        ∀ e, ¬ Expr.Derives .expression (front ts) e) ∧
      (∀ ss, (r.parse (Cursor.start s)).value.1 = ⟨ss, []⟩ ↔ Stmt.DerivesAll (front ts) ss) ∧
      (∀ e e', Expr.Derives .expression (front ts) e →
        Expr.Derives .expression (front ts) e' → e = e') ∧
      ∀ ss ss', Stmt.DerivesAll (front ts) ss → Stmt.DerivesAll (front ts) ss' → ss = ss' := by
  obtain ⟨stop, _, hs⟩ := h.ofTokens?
  have hexpr := r.parseExpression_eq_some_iff ⟨front ts, stop⟩
  have hprog (ss : List Stmt) : (r.parse (Cursor.start ⟨front ts, stop⟩)).value.1 = ⟨ss, []⟩ ↔
      Stmt.DerivesAll (front ts) ss := by
    rw [r.parse_program, Program.ofStream_eq_iff]
  refine ⟨_, hs, hexpr, ?_, hprog, ?_, ?_⟩
  · simp only [← hexpr, Option.eq_none_iff_forall_ne_some, ne_eq]
  · intro e e' he he'
    have same := ((hexpr e).mpr he).symm.trans ((hexpr e').mpr he')
    exact Option.some.inj same
  · intro ss ss' hss hss'
    have same := ((hprog ss).mpr hss).symm.trans ((hprog ss').mpr hss')
    exact congrArg Program.statements same

/-- Two differences on two lines, and a sum behind the first end token. -/
def differences : List Token :=
  [⟨.string, "\"a\"", .string "a", 1⟩, ⟨.minus, "-", .nil, 1⟩, ⟨.trueWord, "true", .nil, 1⟩,
    ⟨.minus, "-", .nil, 2⟩, ⟨.nilWord, "nil", .nil, 2⟩, ⟨.eof, "", .nil, 2⟩,
    ⟨.plus, "+", .nil, 3⟩, ⟨.eof, "", .nil, 3⟩]

/-- A chain of differences leans to the left, and tokens behind the first end
token do not count. -/
theorem accepted_iff_derived_differences :
    Closed differences ∧
      Expr.Derives .expression (front differences)
        (.binary
          (.binary (.literal (.string "a")) ⟨.minus, "-", .nil, 1⟩ (.literal (.bool true)))
          ⟨.minus, "-", .nil, 2⟩ (.literal .nil)) := by
  have h : Closed differences := ⟨_, rfl, rfl⟩
  obtain ⟨s, hs, hexpr, _⟩ := accepted_iff_derived _ h Reporter.fresh
  obtain rfl := Option.some.inj hs
  exact ⟨h, (hexpr _).mp rfl⟩

end TokenStream

end Lox

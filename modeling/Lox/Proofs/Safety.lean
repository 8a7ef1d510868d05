import Lox.Proofs.Execution
import Lox.Proofs.Recovery
import Lox.Token.Fields
import Lox.Tree

/-!
# Runs under checks

A run takes much for granted: that its tokens are in order and come to an end,
that no divisor is zero, that only statements are executed. A checked run looks
at each of these where it is used, and breaks down where it is not so. No checked
run ever does; it does what the run does that takes all this for granted. Reading
needs no check, as it never gets behind the end token.
-/
namespace Lox

/-- What would keep a run from coming to an outcome. -/
inductive Breakdown where
  /-- A token with a field that is not in order. -/
  | refusal (why : Refusal)
  /-- Tokens without an end token. -/
  | unreadable
  /-- A tree that is no statement. -/
  | misuse (why : Misuse)
  | divisionByZero
  /-- An error of the program that nobody has caught. -/
  | runtime (x : RuntimeError)

namespace Value
open Float.Model Float.Model.UnpackedFloat

/-- A double without a sign is given that of `x`. -/
def copySign (m x : Float) : Float :=
  if Decimal.Double.signWeight ≤ x.toBits.toNat then -m else m

/-- Division that breaks down at zero. -/
def divide (x y : Float) : Except Breakdown Float :=
  if y == 0 then .error .divisionByZero else .ok (x / y)

/-- Division kept away from zero. -/
def quotient (x y : Float) : Except Breakdown Float :=
  if y == 0 then
    if x == 0 || x.isNaN then .ok (0 / 0) else .ok (copySign (1 / 0) x * copySign 1 y)
  else divide x y

/-- The sign of a double taken apart; NaN has none. -/
def sign? : UnpackedFloat → Option Sign
  | .notANumber => none
  | .zero s => some s
  | .infinity s => some s
  | .finite s _ _ _ => some s

def signed (s : Sign) (m : Float) : Float :=
  match s with
  | .negative => -m
  | .positive => m

theorem sign?_unpack {x : Float} {s : Sign} (h : sign? x.toModel.unpack = some s) :
    s = .ofBitVec (@unpackSign Format.binary64 x.toBits.toBitVec) := by
  change sign? (UnpackedFloat.unpack Format.binary64 x.toBits.toBitVec) = some s at h
  unfold UnpackedFloat.unpack at h
  dsimp only at h
  by_cases hfull : @unpackExponent Format.binary64 x.toBits.toBitVec = -1#_
  · rw [if_pos hfull] at h
    by_cases hzero : @unpackMantissa Format.binary64 x.toBits.toBitVec = 0#_
    · rw [if_pos hzero] at h
      exact (Option.some.inj h).symm
    · rw [if_neg hzero] at h
      cases h
  · rw [if_neg hfull] at h
    by_cases hsmall : @unpackExponent Format.binary64 x.toBits.toBitVec = 0#_
    · rw [if_pos hsmall] at h
      by_cases hzero : @unpackMantissa Format.binary64 x.toBits.toBitVec = 0#_
      · rw [dif_pos hzero] at h
        exact (Option.some.inj h).symm
      · rw [dif_neg hzero] at h
        exact (Option.some.inj h).symm
    · rw [if_neg hsmall] at h
      exact (Option.some.inj h).symm

theorem copySign_of_sign {x : Float} {s : Sign} (h : sign? x.toModel.unpack = some s) (m : Float) :
    copySign m x = signed s m := by
  have hlt : x.toBits.toNat < 2 ^ 64 := x.toBits.toNat_lt
  have hbit : @unpackSign Format.binary64 x.toBits.toBitVec = 0#1 ↔
      ¬ Decimal.Double.signWeight ≤ x.toBits.toNat := by
    rw [← BitVec.toNat_inj]
    change (x.toBits.toNat >>> 63) % 2 = 0 ↔ ¬ 2 ^ 63 ≤ x.toBits.toNat
    rw [Nat.shiftRight_eq_div_pow]
    omega
  rw [sign?_unpack h, copySign, Sign.ofBitVec]
  by_cases hneg : Decimal.Double.signWeight ≤ x.toBits.toNat
  · rw [if_pos hneg, if_neg (by rwa [hbit, not_not])]
    rfl
  · rw [if_neg hneg, if_pos (hbit.mpr hneg)]
    rfl

theorem beq_zero_iff (x : Float) : (x == 0) = true ↔ ∃ s, x.toModel.unpack = .zero s := by
  have hzero : (0 : Float).toModel.unpack = .zero .positive := rfl
  change (x.toModel.unpack.compare (0 : Float).toModel.unpack == some .eq) = true ↔ _
  rw [hzero]
  -- Both zeros compare as equal to zero, and no other double does.
  constructor
  · intro h
    cases hx : x.toModel.unpack with
    | zero s => exact ⟨s, rfl⟩
    | notANumber =>
        rw [hx] at h
        cases h
    | infinity s =>
        rw [hx] at h
        cases s <;> cases h
    | finite s m e hm =>
        rw [hx] at h
        cases s <;> cases h
  · rintro ⟨s, hs⟩
    rw [hs]
    rfl

theorem div_eq_pack (x y : Float) :
    x / y = .ofModel (.pack (.div Format.binary64 x.toModel.unpack y.toModel.unpack)) :=
  rfl

theorem pack_infinity (s t : Sign) :
    Float.ofModel (.pack (.infinity (s / t))) = signed s (1 / 0) * signed t 1 := by
  cases s <;> cases t <;> decide +kernel

theorem pack_nan : Float.ofModel (.pack .notANumber) = 0 / 0 := by
  decide +kernel

/-- By zero, zero and NaN give NaN. -/
theorem div_zero_of_nan {x y : Float} {t : Sign} (hy : y.toModel.unpack = .zero t)
    (hx : (x == 0 || x.isNaN) = true) : x / y = 0 / 0 := by
  rw [← pack_nan, div_eq_pack, hy]
  rcases Bool.or_eq_true_iff.mp hx with hx | hx
  · obtain ⟨s, hs⟩ := (beq_zero_iff x).mp hx
    rw [hs]
    rfl
  · change x.toModel.unpack.isNaN = true at hx
    cases hu : x.toModel.unpack with
    | notANumber => rfl
    | zero s =>
        rw [hu] at hx
        cases hx
    | infinity s =>
        rw [hu] at hx
        cases hx
    | finite s m e hm =>
        rw [hu] at hx
        cases hx

/-- By zero, all else gives an infinity with the sign that the two signs make. -/
theorem div_zero_of_not_nan {x y : Float} {t : Sign} (hy : y.toModel.unpack = .zero t)
    (hx : ¬ (x == 0 || x.isNaN) = true) : x / y = copySign (1 / 0) x * copySign 1 y := by
  rw [Bool.or_eq_true, not_or, beq_zero_iff] at hx
  obtain ⟨s, hsign, hquotient⟩ : ∃ s, sign? x.toModel.unpack = some s ∧
      UnpackedFloat.div Format.binary64 x.toModel.unpack (.zero t) = .infinity (s / t) := by
    cases hu : x.toModel.unpack with
    | notANumber => exact absurd (congrArg UnpackedFloat.isNaN hu) hx.2
    | zero s => exact absurd ⟨s, hu⟩ hx.1
    | infinity s => exact ⟨s, rfl, rfl⟩
    | finite s m e hm => exact ⟨s, rfl, rfl⟩
  have hsign' : sign? y.toModel.unpack = some t := by
    rw [hy]
    rfl
  rw [div_eq_pack, hy, hquotient, pack_infinity, copySign_of_sign hsign, copySign_of_sign hsign']

/-- Division kept away from zero is the division of doubles. -/
theorem quotient_eq (x y : Float) : quotient x y = .ok (x / y) := by
  unfold quotient divide
  by_cases hy : (y == 0) = true
  · obtain ⟨t, ht⟩ := (beq_zero_iff y).mp hy
    rw [if_pos hy]
    by_cases hx : (x == 0 || x.isNaN) = true
    · rw [if_pos hx, div_zero_of_nan ht hx]
    · rw [if_neg hx, div_zero_of_not_nan ht hx]
  · rw [if_neg hy, if_neg hy]

def applyChecked (op : Token) (v w : Value) : Except Breakdown Value :=
  match op.kind, v, w with
  | .slash, number x, number y => (quotient x y).map number
  | _, v, w => (v.applyBinary op w).mapError .runtime

theorem applyChecked_eq (op : Token) (v w : Value) :
    v.applyChecked op w = (v.applyBinary op w).mapError .runtime := by
  unfold applyChecked
  -- Division is the only operator with a check of its own.
  split
  · rename_i x y hop
    rw [quotient_eq, applyBinary, hop]
    simp only [applyNumeric, hop]
    rfl
  · rfl

def datum : Value → Datum
  | nil => .nil
  | bool b => .bool b
  | number x => .number x
  | string s => .string s

end Value

namespace Expr

def evalChecked : Expr → Except Breakdown Value
  | literal v => .ok v
  | grouping e => e.evalChecked
  | unary op e =>
      match e.evalChecked with
      | .ok v => (v.applyUnary op).mapError .runtime
      | .error b => .error b
  | binary l op r =>
      match l.evalChecked with
      | .error b => .error b
      | .ok v =>
          match r.evalChecked with
          | .error b => .error b
          | .ok w => v.applyChecked op w

theorem evalChecked_eq (e : Expr) : e.evalChecked = e.eval.mapError .runtime := by
  induction e with
  | literal v => rfl
  | grouping e ih => exact ih
  | unary op e ih =>
      rw [evalChecked, ih, eval]
      cases e.eval with
      | ok v => rfl
      | error x => rfl
  | binary l op r ihl ihr =>
      rw [evalChecked, ihl, ihr, eval]
      cases l.eval with
      | error x => rfl
      | ok v =>
          cases r.eval with
          | error x => rfl
          | ok w => exact Value.applyChecked_eq op v w

end Expr

namespace Tree

/-- The lines printed by a tree that must be a statement. -/
def performChecked (t : Tree) : Except Breakdown (List String) :=
  match t.stmt? with
  | .error m => .error (.misuse m)
  | .ok (.expression e) => e.evalChecked.map fun _ => []
  | .ok (.print e) => e.evalChecked.map fun v => [v.text]

theorem performChecked_stmt (s : Stmt) :
    (stmt s).performChecked = s.perform.mapError .runtime := by
  cases s with
  | expression e =>
      simp only [performChecked, stmt?, e.evalChecked_eq, Stmt.perform]
      cases e.eval <;> rfl
  | print e =>
      simp only [performChecked, stmt?, e.evalChecked_eq, Stmt.perform]
      cases e.eval <;> rfl

/-- Executes trees up to an error of the program, and catches nothing else. -/
def performAllChecked : List Tree → Except Breakdown (List String × Option RuntimeError)
  | [] => .ok ([], none)
  | t :: ts =>
      match t.performChecked with
      | .error (.runtime x) => .ok ([], some x)
      | .error b => .error b
      | .ok lines => (performAllChecked ts).map fun more => (lines ++ more.1, more.2)

theorem performAllChecked_stmts (ss : List Stmt) :
    performAllChecked (ss.map stmt) = .ok (Stmt.performAll ss) := by
  induction ss with
  | nil => rfl
  | cons s ss ih =>
      rw [List.map_cons, performAllChecked, performChecked_stmt, Stmt.performAll, ih]
      cases s.perform <;> rfl

end Tree

namespace Token

/-- A token whose fields are checked as those of a token from outside. -/
def checked (t : Token) : Except Breakdown Token :=
  (ofParts t.kind t.lexeme t.literal.datum t.line).mapError .refusal

theorem decode_ne_bool (kind : Kind) (lexeme : String) (b : Bool) :
    decode kind lexeme ≠ .bool b := by
  unfold decode
  split <;> simp

theorem checked_eq {t : Token} (hliteral : t.literal = decode t.kind t.lexeme)
    (hline : 1 ≤ t.line) : t.checked = .ok t := by
  have hvalue : literalOf t.literal.datum = .ok t.literal := by
    cases hl : t.literal with
    -- From outside, a boolean would become a number.
    | bool b => exact absurd (hliteral.symm.trans hl) (decode_ne_bool _ _ b)
    | nil => rfl
    | number x => rfl
    | string s => rfl
  have hcount : Field.line (.int t.line) = .ok t.line := by
    have hpos : ¬ (t.line : Int) < 1 := by omega
    simp only [Field.line, Field.integer, if_neg hpos, Int.toNat_natCast]
  rw [checked, ofParts, hvalue, hcount]
  rfl

theorem mapM_checked {ts : List Token} (h : ∀ t ∈ ts, t.checked = .ok t) :
    ts.mapM checked = .ok ts := by
  induction ts with
  | nil => rfl
  | cons t ts ih =>
      have hts : ts.mapM checked = .ok ts := by
        apply ih
        intro u hu
        exact h u (by simp [hu])
      rw [List.mapM_cons, h t (by simp), hts]
      rfl

end Token

/-- Tokens that must come to an end. -/
def TokenStream.checked (ts : List Token) : Except Breakdown TokenStream :=
  match ofTokens? ts with
  | some s => .ok s
  | none => .error .unreadable

namespace Scan

/-- Reading never leaves the tokens. A place where it stands has some of the last
tokens, `rest`, in front of it. The next of these, or the end token, has the
index of that place; reading a statement stops at such a place, and so does the
search for a boundary behind an error. -/
def ReadsInside (s : Scan) : Prop :=
  ∃ stream xs, TokenStream.ofTokens? s.tokens = some stream ∧ Segment.Cuts stream 0 xs ∧
    (Cursor.start stream).parse.1 = Program.ofSegments xs ∧
    ∀ rest, rest <:+ stream.body →
      s.tokens[((Cursor.start stream).before rest).pos]? = some (rest.headD stream.stop) ∧
      Reader.remaining (Stmt.read rest) <:+ rest ∧
      ∀ stopped, Segment.resume rest stopped <:+ rest

theorem readsInside_ofText (source : String) : (ofText source).ReadsInside := by
  refine ⟨_, _, ofTokens?_ofText source, Segment.cuts_all _ (Nat.zero_le _), rfl, ?_⟩
  intro rest hrest
  refine ⟨?_, Stmt.read_trims rest, Segment.resume_suffix rest⟩
  have hdrop := List.suffix_iff_eq_drop.mp hrest
  change (ofText source).tokens[(words source).length - rest.length]? = _
  rw [tokens_ofText, Segment.getElem?_append_stop _ _ [] (Nat.sub_le _ _), ← hdrop]

theorem mapM_checked_tokens (source : String) :
    (ofText source).tokens.mapM Token.checked = .ok (ofText source).tokens := by
  apply Token.mapM_checked
  intro t ht
  exact Token.checked_eq (literal_eq_decode t ht) (one_le_line t ht)

theorem checked_tokens (source : String) :
    TokenStream.checked (ofText source).tokens = .ok (ofText source).stream := by
  rw [TokenStream.checked, stream_ofText, ofTokens?_ofText]

end Scan

namespace Reporter

/-- What there is to see of an execution, given the lines that it printed and the
error that stopped it. -/
def conclude (r : Reporter) (done : List String × Option RuntimeError) : Step Bool :=
  match done.2 with
  | none => ⟨true, r, done.1.map Event.output⟩
  | some x =>
      let note := Event.note .interpreter
        ("Runtime error on line " ++ decimalText x.token.line ++ ": " ++ x.message)
      ⟨false, r.addRuntime x.report, done.1.map Event.output ++ note :: x.report.events⟩

theorem conclude_performAll (r : Reporter) (ss : List Stmt) :
    r.conclude (Stmt.performAll ss) = r.interpret ss := by
  unfold conclude interpret
  rcases Stmt.performAll ss with ⟨lines, _ | x⟩ <;> rfl

def runChecked (r : Reporter) (source : String) : Except Breakdown (Step Outcome) := do
  let scanned := r.scan source
  let tokens ← scanned.value.tokens.mapM Token.checked
  let stream ← TokenStream.checked tokens
  let parsed := scanned.reporter.parse (Cursor.start stream)
  let p := parsed.value.1
  let soFar := scanned.events ++ parsed.events
  if parsed.reporter.hadError then
    let note := Event.note .runner
      ("Skipping evaluation: " ++ decimalText p.errors.length ++ " syntax errors")
    return ⟨parsed.reporter.outcome, parsed.reporter, soFar ++ [note]⟩
  else
    let executed ← Tree.performAllChecked (p.statements.map .stmt)
    let done := parsed.reporter.conclude executed
    return ⟨done.reporter.outcome, done.reporter, soFar ++ done.events⟩

/-- No check fails, whatever the text and whatever was reported before. -/
theorem runChecked_eq (r : Reporter) (source : String) :
    r.runChecked source = .ok (r.run source) := by
  have hvalue : (r.scan source).value = Scan.ofText source := rfl
  unfold runChecked run
  simp only [hvalue, Scan.mapM_checked_tokens, Scan.checked_tokens, Tree.performAllChecked_stmts,
    conclude_performAll, Except.bind, bind, pure, Except.pure]
  split <;> rfl

end Reporter

end Lox

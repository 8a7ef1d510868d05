import Lox.Proofs.Safety
import Lox.Proofs.Typing
import Mathlib

/-!
# Sameness of values

Equality of doubles is no equivalence: NaN is not equal to itself, and zero is equal to
negative zero although a quotient tells them apart. The rule for the sameness of numbers
mends both. It looks at the signs of doubles that are equal, and never at the sign of
NaN, which has many words and among them words of either sign.

By this rule sameness is an equivalence, and it is as fine as it can be: values that are
the same cannot be told apart by any operator, nor by their text.

How doubles are packed into words and compared is taken from Batteries, whose lemmas on
doubles come with the whole of Mathlib and with no part of it.
-/
namespace Lox

namespace Value
open Float.Model Float.Model.UnpackedFloat

/-- The sign bit of a double given as a word. -/
def negative (w : UInt64) : Bool := decide (Decimal.Double.signWeight ≤ w.toNat)

/-- The rule for two doubles given as words. -/
def sameWords (w w' : UInt64) : Bool :=
  (Float.ofBits w).isNaN && (Float.ofBits w').isNaN ||
    Float.ofBits w == Float.ofBits w' && negative w == negative w'

/-- A word is kept as it is unless it is one of NaN, which are all made the same. -/
theorem toBits_ofBits {w : UInt64} (h : Float.ofBits w ≠ Float.nan) :
    (Float.ofBits w).toBits = w := by
  have hpack : (Float.ofBits w).toBits.toBitVec =
      if @isNaNBits Format.binary64 w.toBitVec then packedNaN Format.binary64
      else w.toBitVec := @pack_unpack Format.binary64 w.toBitVec (by decide)
  split at hpack
  · exact absurd (Float.toBits_inj.mp (UInt64.toBitVec_inj.mp hpack)) h
  · exact UInt64.toBitVec_inj.mp hpack

theorem sameWords_iff (w w' : UInt64) :
    sameWords w w' = true ↔ Float.ofBits w = Float.ofBits w' := by
  unfold sameWords
  simp only [Bool.or_eq_true, Bool.and_eq_true, Float.isNaN_eq_decide_eq_nan, decide_eq_true_eq,
    Float.beq_iff_ne_nan_and_eq, beq_iff_eq]
  constructor
  · rintro (⟨hw, hw'⟩ | ⟨⟨hw, hw', hequal⟩, hsign⟩)
    · rw [hw, hw']
    · -- Zeros are equal whatever their signs, and only the signs tell them apart.
      rw [← toBits_ofBits hw, ← toBits_ofBits hw'] at hsign
      rcases hequal with h | ⟨hzero, hzero'⟩ | ⟨hzero, hzero'⟩
      · exact h
      · rw [hzero, hzero'] at hsign
        exact absurd hsign (by decide +kernel)
      · rw [hzero, hzero'] at hsign
        exact absurd hsign (by decide +kernel)
  · intro h
    by_cases hnan : Float.ofBits w = Float.nan
    · exact .inl ⟨hnan, h ▸ hnan⟩
    · have hwords : w = w' :=
        calc w = (Float.ofBits w).toBits := (toBits_ofBits hnan).symm
          _ = (Float.ofBits w').toBits := by rw [h]
          _ = w' := toBits_ofBits (h ▸ hnan)
      exact .inr ⟨⟨hnan, h ▸ hnan, .inl h⟩, by rw [hwords]⟩

/-- Numbers are the same by the rule, whatever words they are given by. -/
theorem same_ofBits (w w' : UInt64) :
    same (number (.ofBits w)) (number (.ofBits w')) = sameWords w w' := by
  rw [Bool.eq_iff_iff, same_iff_eq, sameWords_iff, number.injEq]

end Value

namespace Expr
open Value

/-- Expressions of one shape and with one set of operators, whose literals are the same. -/
inductive Equated : Expr → Expr → Prop
  | literal {v w : Value} : v.same w = true → Equated (literal v) (literal w)
  | grouping {e e' : Expr} : Equated e e' → Equated (grouping e) (grouping e')
  | unary {op : Token} {e e' : Expr} : Equated e e' → Equated (unary op e) (unary op e')
  | binary {l l' r r' : Expr} {op : Token} : Equated l l' → Equated r r' →
      Equated (binary l op r) (binary l' op r')

theorem Equated.eq {e e' : Expr} (h : Equated e e') : e = e' := by
  induction h with
  | literal hsame => rw [(same_iff_eq _ _).mp hsame]
  | grouping _ ih => rw [ih]
  | unary _ ih => rw [ih]
  | binary _ _ ihl ihr => rw [ihl, ihr]

/-- Sameness is an equivalence, it follows the rule for numbers, and evaluation respects
it. The last holds under checks too, where division is kept away from zero. -/
theorem sameness_respected (e e' : Expr) (h : Equated e e') :
    (∀ w w' : UInt64, same (number (.ofBits w)) (number (.ofBits w')) = sameWords w w') ∧
    (∀ v, same v v = true) ∧ (∀ v w, same v w = true → same w v = true) ∧
    (∀ u v w, same u v = true → same v w = true → same u w = true) ∧
    ((∃ v v', e.eval = .ok v ∧ e'.eval = .ok v' ∧ v.same v' = true ∧ v.text = v'.text) ∨
      ∃ x, e.eval = .error x ∧ e'.eval = .error x) ∧
    e.evalChecked = e.eval.mapError .runtime ∧
    e'.evalChecked = e'.eval.mapError .runtime := by
  have hrefl (v : Value) : same v v = true := (same_iff_eq v v).mpr rfl
  refine ⟨same_ofBits, hrefl, ?_, ?_, ?_, e.evalChecked_eq, e'.evalChecked_eq⟩
  · intro v w hvw
    exact (same_iff_eq w v).mpr ((same_iff_eq v w).mp hvw).symm
  · intro u v w huv hvw
    exact (same_iff_eq u w).mpr (((same_iff_eq u v).mp huv).trans ((same_iff_eq v w).mp hvw))
  · obtain rfl := h.eq
    cases e.eval with
    | error x => exact .inr ⟨x, rfl, rfl⟩
    | ok v => exact .inl ⟨v, v, rfl, rfl, hrefl v, rfl⟩

/-- One and the number of a word. -/
def onePlus (word : UInt64) : Expr :=
  binary (literal (.number 1)) ⟨.plus, "+", .nil, 1⟩ (literal (.number (.ofBits word)))

/-- The words `0x7ff8000000000000` and `0xfff0000000000001` are both NaN, with different
signs, and a sum with either has one text. The words of the two zeros are not the same. -/
theorem sameness_respected_nan :
    Equated (onePlus 0x7ff8000000000000) (onePlus 0xfff0000000000001) ∧
      sameWords 0x7ff8000000000000 0xfff0000000000001 = true ∧
      sameWords 0 0x8000000000000000 = false ∧
      ∃ v v', (onePlus 0x7ff8000000000000).eval = .ok v ∧
        (onePlus 0xfff0000000000001).eval = .ok v' ∧
        v.same v' = true ∧ v.text = v'.text := by
  have hwords : sameWords 0x7ff8000000000000 0xfff0000000000001 = true := by decide +kernel
  have h : Equated (onePlus 0x7ff8000000000000) (onePlus 0xfff0000000000001) :=
    .binary (.literal ((same_iff_eq _ _).mpr rfl)) (.literal (by rw [same_ofBits]; exact hwords))
  refine ⟨h, hwords, by decide +kernel, ?_⟩
  obtain ⟨_, _, _, _, hvalue | ⟨x, hx, _⟩, _⟩ := sameness_respected _ _ h
  · exact hvalue
  · cases hx

end Expr

end Lox

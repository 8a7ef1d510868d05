import Lox.Decimal
import Lox.Decimal.Double

/-!
# The shortest decimal of a double

The decimals that round to a finite double `n` lie between the midpoints to its
two neighbours, ends included exactly when `n` is even. All comparisons below
are exact: both sides are multiplied by powers of two and ten until they are
natural numbers.
-/
namespace Lox.Decimal

/-- Whether a decimal rounds to the double `n`. Twice the decimal is compared
with the sums of neighbouring magnitudes, over a common denominator. -/
def readsBack (n : Nat) (d : Decimal) : Bool :=
  let twice := d.digits * tenTo d.exponent.toNat * twoTo 1075
  let scale := tenTo (-d.exponent).toNat
  let low := (magnitude (n - 1) + magnitude n) * scale
  let high := (magnitude n + magnitude (n + 1)) * scale
  if n % 2 = 0 then decide (low ≤ twice) && decide (twice ≤ high)
  else decide (low < twice) && decide (twice < high)

/-- The exact value of the double `n`, every digit written out. -/
def exact (n : Nat) : Decimal :=
  ⟨magnitude n * fiveTo 1074, -1074⟩

/-- The value of `n` as a fraction of the grid step ten to the power `e`. -/
def onGrid (n : Nat) (e : Int) : Nat × Nat :=
  (magnitude n * tenTo (-e).toNat, twoTo 1074 * tenTo e.toNat)

/-- The multiple of the grid step that rounds to `n` and is nearest to it. Only
the two neighbours of `n` on the grid are tried; of two that are equally near,
the even one is taken. -/
def candidate (n : Nat) (e : Int) : Option Decimal :=
  let (num, den) := onGrid n e
  let below : Decimal := ⟨num / den, e⟩
  let above : Decimal := ⟨num / den + 1, e⟩
  match readsBack n below, readsBack n above with
  | true, false => some below
  | false, true => some above
  | false, false => none
  | true, true =>
      match compare (2 * num) ((2 * (num / den) + 1) * den) with
      | .lt => some below
      | .gt => some above
      | .eq => some (if num / den % 2 = 0 then below else above)

/-- Whether ten to the power `e` is at most the double `n`. -/
def powerAtMost (n : Nat) (e : Int) : Bool :=
  decide ((onGrid n e).2 ≤ (onGrid n e).1)

/-- The power of ten of the first digit of `n`, guessed from its power of two
and then corrected by one either way. -/
def leadingExponent (n : Nat) : Int :=
  let guess := (((magnitude n).log2 : Int) - 1074) * 30103 / 100000
  if powerAtMost n (guess + 1) then guess + 1
  else if powerAtMost n guess then guess
  else guess - 1

/-- The decimal with the fewest digits that rounds to `n`, and of those the
nearest. Seventeen digits are always enough; the exact value stands behind the
search so that the result rounds to `n` without that fact. -/
def shortest (n : Nat) : Decimal :=
  ((List.range 17).findSome? fun i : Nat => candidate n (leadingExponent n - i)).getD (exact n)

theorem candidate_readsBack {n : Nat} {e : Int} {d : Decimal} (h : candidate n e = some d) :
    readsBack n d = true := by
  simp only [candidate] at h
  split at h
  · rename_i hb _
    cases h
    exact hb
  · rename_i _ ha
    cases h
    exact ha
  · exact absurd h (by simp)
  · rename_i hb ha
    split at h
    · cases h
      exact hb
    · cases h
      exact ha
    · split at h
      · cases h
        exact hb
      · cases h
        exact ha

/-- Twice a whole number of steps of a power of two, written in tens. -/
theorem twice_in_tens (m k : Nat) :
    m * fiveTo k * 1 * twoTo (k + 1) = (m + m) * tenTo k := by
  have join : fiveTo k * twoTo k = tenTo k := (Nat.mul_pow 5 2 k).symm
  rw [twoTo_succ, Nat.mul_one, ← Nat.mul_assoc, Nat.mul_assoc m, join, Nat.mul_two, Nat.add_mul]

/-- The exact value of a double rounds to it. -/
theorem exact_readsBack (n : Nat) : readsBack n (exact n) = true := by
  have low := magnitude_pred_le n
  have high := magnitude_lt_succ n
  have factor : magnitude n * fiveTo 1074 * tenTo (Int.toNat (-1074)) * twoTo 1075 =
      (magnitude n + magnitude n) * tenTo 1074 := twice_in_tens (magnitude n) 1074
  have scale : tenTo (Int.toNat (- -1074)) = tenTo 1074 := rfl
  have pos := tenTo_pos 1074
  simp only [readsBack, exact, factor, scale]
  generalize tenTo 1074 = s at pos
  split
  · rename_i even
    simp only [Bool.and_eq_true, decide_eq_true_eq]
    exact ⟨Nat.mul_le_mul_right s (by omega), Nat.mul_le_mul_right s (by omega)⟩
  · rename_i odd
    have strict : magnitude (n - 1) < magnitude n := by
      cases n with
      | zero => exact absurd rfl odd
      | succ n => exact magnitude_lt_succ n
    simp only [Bool.and_eq_true, decide_eq_true_eq]
    exact ⟨Nat.mul_lt_mul_of_pos_right (by omega) pos, Nat.mul_lt_mul_of_pos_right (by omega) pos⟩

theorem shortest_readsBack (n : Nat) : readsBack n (shortest n) = true := by
  unfold shortest
  cases found : (List.range 17).findSome? fun i : Nat => candidate n (leadingExponent n - i) with
  | none => exact exact_readsBack n
  | some d =>
      obtain ⟨i, _, hi⟩ := List.exists_of_findSome?_eq_some found
      exact candidate_readsBack hi

end Lox.Decimal

/-!
# Doubles taken apart

A finite double is its sign and a number `n`, the rest of its bits read as a
binary number. Magnitudes are counted in steps of two to the power -1074, the
smallest positive double, so that they are natural numbers and grow with `n`.
-/
namespace Lox.Decimal

def twoTo (k : Nat) : Nat := Nat.pow 2 k

def fiveTo (k : Nat) : Nat := Nat.pow 5 k

def tenTo (k : Nat) : Nat := Nat.pow 10 k

/-- The parts of a double. There is one NaN only. -/
inductive Double where
  | finite (negative : Bool) (n : Nat)
  | infinite (negative : Bool)
  | nan
  deriving DecidableEq, Repr

namespace Double

/-- The weight of the sign among the bits of a double. -/
def signWeight : Nat := twoTo 63

/-- The bits of the infinite double without its sign. -/
def infinityBits : Nat := 2047 * twoTo 52

def ofFloat (x : Float) : Double :=
  let bits := x.toBits.toNat
  let negative := decide (signWeight ≤ bits)
  let n := bits % signWeight
  if n < infinityBits then finite negative n
  else if n = infinityBits then infinite negative
  else nan

end Double

/-- The magnitude of a finite double, in steps of two to the power -1074. Below
the first power of two the bits are the magnitude; above it they hold the
exponent and the digits behind a leading one. -/
def magnitude (n : Nat) : Nat :=
  if n / twoTo 52 = 0 then n
  else (twoTo 52 + n % twoTo 52) * twoTo (n / twoTo 52 - 1)

theorem twoTo_pos (k : Nat) : 0 < twoTo k := Nat.two_pow_pos k

theorem twoTo_succ (k : Nat) : twoTo (k + 1) = twoTo k * 2 := rfl

theorem tenTo_pos (k : Nat) : 0 < tenTo k := Nat.pow_pos (by decide)

/-- Magnitudes grow with the bits. -/
theorem magnitude_lt_succ (n : Nat) : magnitude n < magnitude (n + 1) := by
  have pos : 0 < twoTo 52 := twoTo_pos 52
  unfold magnitude
  generalize twoTo 52 = b at pos
  have split := Nat.mod_add_div n b
  have small := Nat.mod_lt n pos
  by_cases inside : n % b + 1 < b
  · have next : (n + 1) / b = n / b ∧ (n + 1) % b = n % b + 1 :=
      (Nat.div_mod_unique pos).2 ⟨by omega, inside⟩
    rw [next.1, next.2]
    split
    · omega
    · exact Nat.mul_lt_mul_of_pos_right (by omega) (twoTo_pos _)
  · have next : (n + 1) / b = n / b + 1 ∧ (n + 1) % b = 0 := by
      refine (Nat.div_mod_unique pos).2 ⟨?_, pos⟩
      rw [Nat.mul_add]
      omega
    rw [next.1, next.2, if_neg (Nat.succ_ne_zero _), Nat.add_sub_cancel]
    by_cases first : n / b = 0
    · rw [if_pos first, first]
      have one : twoTo 0 = 1 := rfl
      rw [one]
      rw [first] at split
      omega
    · rw [if_neg first]
      obtain ⟨k, hk⟩ := Nat.exists_eq_succ_of_ne_zero first
      rw [hk]
      simp only [Nat.succ_eq_add_one, Nat.add_sub_cancel, twoTo_succ]
      have p := twoTo_pos k
      generalize twoTo k = t at p
      have : (b + n % b) * t < (b + b) * t := Nat.mul_lt_mul_of_pos_right (by omega) p
      calc (b + n % b) * t < (b + b) * t := this
        _ = (b + 0) * (t * 2) := by
          rw [Nat.add_zero, Nat.add_mul, Nat.mul_comm t 2, ← Nat.mul_assoc, Nat.mul_two,
            Nat.add_mul]

theorem magnitude_pred_le (n : Nat) : magnitude (n - 1) ≤ magnitude n := by
  cases n with
  | zero => exact Nat.le_refl _
  | succ n => exact Nat.le_of_lt (magnitude_lt_succ n)

/-- What a double is, seen as a candidate for an integer. -/
inductive Integral where
  | whole (n : Int)
  | fractional
  | notFinite
  deriving DecidableEq, Repr

/-- The integer that a double equals, if it is one. -/
def integral (x : Float) : Integral :=
  match Double.ofFloat x with
  | .finite negative n =>
      if magnitude n % twoTo 1074 ≠ 0 then .fractional
      else
        let m : Int := (magnitude n / twoTo 1074 : Nat)
        .whole (if negative then -m else m)
  | _ => .notFinite

end Lox.Decimal

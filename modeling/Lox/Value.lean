import Lox.Decimal.Layout

/-!
# Values

What an expression evaluates to: nil, a boolean, a double or a string. Numbers
are compared as data, so NaN is the same as itself and zero differs from
negative zero; with that reading sameness of values is equality.
-/
namespace Lox

inductive Value where
  | nil
  | bool (b : Bool)
  | number (x : Float)
  | string (s : String)
  deriving DecidableEq

namespace Value

/-- Only nil and false count as false. -/
def truthy : Value → Bool
  | nil => false
  | bool b => b
  | number _ => true
  | string _ => true

/-- Sameness without any conversion between the four sorts of value. -/
def same : Value → Value → Bool
  | nil, nil => true
  | bool a, bool b => a == b
  | number x, number y => x.toBits == y.toBits
  | string s, string t => s == t
  | _, _ => false

/-- A double is determined by its bits, there being one NaN only. -/
theorem float_eq_of_toBits_eq {x y : Float} (h : x.toBits = y.toBits) : x = y := by
  cases x with
  | ofModel a =>
      cases y with
      | ofModel b =>
          cases a with
          | mk m _ =>
              cases b with
              | mk n _ =>
                  have same : m = n := h
                  subst same
                  rfl

theorem same_iff_eq (v w : Value) : same v w = true ↔ v = w := by
  cases v <;> cases w <;> simp [same]
  exact ⟨float_eq_of_toBits_eq, fun h => h ▸ rfl⟩

/-- The text that a program prints for a value. -/
def text : Value → String
  | nil => "nil"
  | bool true => "true"
  | bool false => "false"
  | number x => Decimal.Layout.display.write x
  | string s => s

end Value

end Lox

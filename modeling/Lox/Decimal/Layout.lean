import Lox.Decimal.Shortest

/-!
# Number texts

How a double is written on a line: its shortest decimal in positional form
while the power of ten of its first digit lies between -4 and 15, and with an
exponent otherwise. Two layouts are in use. They differ in the words for the
values that are not finite and in what stands behind a whole number.
-/
namespace Lox.Decimal

/-- The words of a number layout. -/
structure Layout where
  /-- Written behind a whole number in positional form. -/
  whole : String
  infinity : String
  nan : String

/-- The digits of a decimal without zeros behind, and the power of ten of the
first of them. -/
def significant (d : Decimal) : List Char × Int :=
  if d.digits = 0 then (['0'], 0)
  else
    let cs := Nat.toDigits 10 d.digits
    ((cs.reverse.dropWhile (· == '0')).reverse, d.exponent + cs.length - 1)

/-- Digits in positional form, the first of them standing for `10 ^ e`. -/
def positional (whole : String) (ds : List Char) (e : Int) : String :=
  if e < 0 then
    "0." ++ String.ofList (List.replicate (-e - 1).toNat '0' ++ ds)
  else if ds.length ≤ e.toNat + 1 then
    String.ofList (ds ++ List.replicate (e.toNat + 1 - ds.length) '0') ++ whole
  else
    String.ofList (ds.take (e.toNat + 1)) ++ "." ++ String.ofList (ds.drop (e.toNat + 1))

/-- An exponent: its sign, then at least two digits. -/
def exponentText (e : Int) : String :=
  let ds := Nat.toDigits 10 e.natAbs
  (if e < 0 then "-" else "+") ++ String.ofList (List.replicate (2 - ds.length) '0' ++ ds)

/-- Digits with one of them before the point, and an exponent. -/
def scientific (ds : List Char) (e : Int) : String :=
  String.ofList (ds.take 1) ++
    (if ds.length ≤ 1 then "" else "." ++ String.ofList (ds.drop 1)) ++
    "e" ++ exponentText e

/-- The text of a decimal. -/
def text (layout : Layout) (d : Decimal) : String :=
  let (ds, e) := significant d
  if -4 ≤ e ∧ e < 16 then positional layout.whole ds e else scientific ds e

namespace Layout

/-- Tokens spell a number so that its text always has a point or an exponent. -/
def plain : Layout := ⟨".0", "inf", "nan"⟩

/-- Programs print a whole number without a point. -/
def display : Layout := ⟨"", "Infinity", "NaN"⟩

/-- A minus sign where one is due. -/
def sign (negative : Bool) : String :=
  if negative then "-" else ""

/-- The text of a double. The sign of zero is kept; NaN has none. -/
def write (layout : Layout) (x : Float) : String :=
  match Double.ofFloat x with
  | .finite negative n => sign negative ++ (shortest n).text layout
  | .infinite negative => sign negative ++ layout.infinity
  | .nan => layout.nan

end Layout

end Lox.Decimal

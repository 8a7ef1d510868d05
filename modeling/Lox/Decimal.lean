/-!
# Decimals

A decimal is a whole number of steps of one power of ten. This module reads
decimals from digits and rounds them to doubles. Which decimal stands for a
double is the business of `Lox.Decimal.Shortest`, and how it is laid out on a
line that of `Lox.Decimal.Layout`.
-/
namespace Lox

/-- The number `digits * 10 ^ exponent`. -/
structure Decimal where
  digits : Nat
  exponent : Int
  deriving DecidableEq, Repr

namespace Decimal

/-- The value of one decimal digit. -/
def digitValue (c : Char) : Nat :=
  c.toNat - '0'.toNat

/-- The number that a run of decimal digits spells, most significant first. -/
def natOfDigits (cs : List Char) : Nat :=
  cs.foldl (fun n c => 10 * n + digitValue c) 0

/-- The greatest number of digits that a text may spell an integer with. -/
def maxDigits : Nat := 4300

/-- The decimal with these digits before and after its point. -/
def ofDigits (whole fraction : List Char) : Decimal :=
  ⟨natOfDigits (whole ++ fraction), -(fraction.length : Int)⟩

/-- The nearest double, a tie going to the even one. The exponent is compared
first: beyond four hundred places a decimal is infinite or zero whatever its
digits, so no power of ten that large is ever formed. -/
def toFloat (d : Decimal) : Float :=
  if d.digits = 0 then 0
  else if 400 < d.exponent then 1 / 0
  else if d.exponent + (d.digits.log2 / 3 + 1 : Nat) < -400 then 0
  else Float.ofScientific d.digits (decide (d.exponent < 0)) d.exponent.natAbs

/-- A sign and the text after it; no sign is a plus. -/
def takeSign : List Char → Bool × List Char
  | '-' :: cs => (true, cs)
  | '+' :: cs => (false, cs)
  | cs => (false, cs)

/-- The number behind an exponent mark, with its sign. -/
def readExponent? (cs : List Char) : Option Int :=
  let (negative, ds) := takeSign cs
  if ds.isEmpty || !ds.all Char.isDigit then none
  else some (if negative then -(natOfDigits ds : Int) else natOfDigits ds)

/-- Reads `digits`, `digits.digits` and either with an exponent; one side of
the point may be empty. -/
def read? (cs : List Char) : Option Decimal :=
  let whole := cs.takeWhile Char.isDigit
  let rest := cs.dropWhile Char.isDigit
  let (fraction, rest) :=
    match rest with
    | '.' :: more => (more.takeWhile Char.isDigit, more.dropWhile Char.isDigit)
    | _ => ([], rest)
  let d := ofDigits whole fraction
  if whole.isEmpty && fraction.isEmpty then none
  else
    match rest with
    | [] => some d
    | c :: more =>
        if c == 'e' || c == 'E' then
          (readExponent? more).map fun e => ⟨d.digits, d.exponent + e⟩
        else none

/-- Reads a signed decimal, or one of the words `inf` and `nan`, as a double. -/
def readFloat? (text : String) : Option Float :=
  let (negative, cs) := takeSign text.toList
  let magnitude : Option Float :=
    if cs == ['i', 'n', 'f'] then some (1 / 0)
    else if cs == ['n', 'a', 'n'] then some (0 / 0)
    else (read? cs).map toFloat
  magnitude.map fun x => if negative then -x else x

/-- The nearest double to an integer; none if that would be infinite. -/
def floatOfInt? (n : Int) : Option Float :=
  let x := toFloat ⟨n.natAbs, 0⟩
  if x.isInf then none else some (if n < 0 then -x else x)

end Decimal

end Lox

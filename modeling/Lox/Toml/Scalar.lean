import Lox.Datum
import Lox.Toml.Quoted

/-!
# TOML numbers and moments

Numbers may hold single underscores between digits. Whole numbers have no idle
zeros in front, and may be written to the bases sixteen, eight and two; to base
ten they have at most `Decimal.maxDigits` digits. Dates must exist in the
calendar.
-/
namespace Lox.Toml

/-- Why a text cannot be read. -/
inductive Failure where
  | malformed
  /-- An integer of that many digits. -/
  | oversizedInteger (digits : Nat)
  deriving DecidableEq, Repr

/-- Reads something off the front of a text, or says why that cannot be done. -/
abbrev ValueReader (α : Type) := List Char → Except Failure (α × List Char)

/-- What was to be read, if it is there. -/
def required {α : Type} : Option α → Except Failure α
  | some x => .ok x
  | none => .error .malformed

/-- A run of digits in which single underscores may stand between two digits.
The underscores are left out. -/
def digitRun (isDigit : Char → Bool) : List Char → List Char × List Char
  | '_' :: d :: cs =>
      if isDigit d then
        let (ds, rest) := digitRun isDigit cs
        (d :: ds, rest)
      else ([], '_' :: d :: cs)
  | d :: cs =>
      if isDigit d then
        let (ds, rest) := digitRun isDigit cs
        (d :: ds, rest)
      else ([], d :: cs)
  | [] => ([], [])

/-- A run of digits that must begin with one. -/
def digits1? (isDigit : Char → Bool) : TextReader (List Char)
  | d :: cs => if isDigit d then some (digitRun isDigit (d :: cs)) else none
  | [] => none

def isHex (c : Char) : Bool :=
  c.isDigit || ('a' ≤ c && c ≤ 'f') || ('A' ≤ c && c ≤ 'F')

def isOctal (c : Char) : Bool := '0' ≤ c && c ≤ '7'

def isBinary (c : Char) : Bool := c == '0' || c == '1'

/-- The value of a digit to any base up to sixteen. -/
def digitValue (c : Char) : Nat :=
  if c.isDigit then c.toNat - '0'.toNat else c.toLower.toNat - 'a'.toNat + 10

def natOfBase (base : Nat) (ds : List Char) : Nat :=
  ds.foldl (fun n c => base * n + digitValue c) 0

/-- A whole number to another base than ten, behind its mark. -/
def based? (base : Nat) (isDigit : Char → Bool) (cs : List Char) :
    Option (Datum × List Char) :=
  (digits1? isDigit cs).map fun (ds, rest) => (.int (natOfBase base ds), rest)

/-- The whole part of a number: zero, or digits without idle zeros. -/
def wholePart? : TextReader (List Char)
  | '0' :: cs => some (['0'], cs)
  | cs => digits1? Char.isDigit cs

/-- The fraction of a number, if there is one. -/
def fractionPart (cs : List Char) : Option (List Char) × List Char :=
  match cs with
  | '.' :: more =>
      match digits1? Char.isDigit more with
      | some (ds, rest) => (some ds, rest)
      | none => (none, cs)
  | _ => (none, cs)

/-- The exponent of a number, if there is one. -/
def exponentPart (cs : List Char) : Option Int × List Char :=
  match cs with
  | c :: more =>
      if c == 'e' || c == 'E' then
        let (negative, unsigned) := Decimal.takeSign more
        match digits1? Char.isDigit unsigned with
        | some (ds, rest) =>
            let n : Int := Decimal.natOfDigits ds
            (some (if negative then -n else n), rest)
        | none => (none, cs)
      else (none, cs)
  | [] => (none, cs)

/-- A number to base ten. -/
def decimal : ValueReader Datum := fun cs =>
  let (negative, unsigned) := Decimal.takeSign cs
  match wholePart? unsigned with
  | none => .error .malformed
  | some (whole, rest) =>
      let (fraction, rest) := fractionPart rest
      let (exponent, rest) := exponentPart rest
      if fraction.isSome || exponent.isSome then
        let d := Decimal.ofDigits whole (fraction.getD [])
        let x := Decimal.toFloat ⟨d.digits, d.exponent + exponent.getD 0⟩
        .ok (.number (if negative then -x else x), rest)
      else if Decimal.maxDigits < whole.length then .error (.oversizedInteger whole.length)
      else
        let n : Int := Decimal.natOfDigits whole
        .ok (.int (if negative then -n else n), rest)

def number : ValueReader Datum := fun cs =>
  let based :=
    match cs with
    | '0' :: 'x' :: more => based? 16 isHex more
    | '0' :: 'o' :: more => based? 8 isOctal more
    | '0' :: 'b' :: more => based? 2 isBinary more
    | _ => none
  match based with
  | some r => .ok r
  | none => decimal cs

/-- The words for infinity and NaN, with or without a sign. -/
def special? (cs : List Char) : Option (Datum × List Char) :=
  let (negative, unsigned) := Decimal.takeSign cs
  match unsigned with
  | 'i' :: 'n' :: 'f' :: rest => some (.number (if negative then -(1 / 0) else 1 / 0), rest)
  | 'n' :: 'a' :: 'n' :: rest => some (.number (0 / 0), rest)
  | _ => none

/-- Two decimal digits that spell a number in a range. -/
def pair? (low high : Nat) : TextReader Nat
  | a :: b :: cs =>
      let n := Decimal.natOfDigits [a, b]
      if a.isDigit && b.isDigit && decide (low ≤ n) && decide (n ≤ high) then some (n, cs) else none
  | _ => none

/-- One given character. -/
def mark? (c : Char) : List Char → Option (List Char)
  | d :: cs => if c == d then some cs else none
  | [] => none

def daysIn (year month : Nat) : Nat :=
  if month = 2 then
    if (year % 4 = 0 ∧ year % 100 ≠ 0) ∨ year % 400 = 0 then 29 else 28
  else if month = 4 ∨ month = 6 ∨ month = 9 ∨ month = 11 then 30
  else 31

/-- The text behind a date. -/
def date? (cs : List Char) : Option (List Char) := do
  let (century, cs) ← pair? 0 99 cs
  let (years, cs) ← pair? 0 99 cs
  let cs ← mark? '-' cs
  let (month, cs) ← pair? 1 12 cs
  let cs ← mark? '-' cs
  let (day, cs) ← pair? 1 31 cs
  let year := 100 * century + years
  if 0 < year ∧ day ≤ daysIn year month then some cs else none

/-- The text behind a time of day. -/
def time? (cs : List Char) : Option (List Char) := do
  let (_, cs) ← pair? 0 23 cs
  let cs ← mark? ':' cs
  let (_, cs) ← pair? 0 59 cs
  let cs ← mark? ':' cs
  let (_, cs) ← pair? 0 59 cs
  match cs with
  | '.' :: d :: more => some (if d.isDigit then more.dropWhile Char.isDigit else cs)
  | _ => some cs

/-- The text behind an offset from universal time, which may be absent. -/
def skipOffset (cs : List Char) : List Char :=
  match cs with
  | c :: more =>
      if c == 'Z' || c == 'z' then more
      else if c == '+' || c == '-' then
        let hours := pair? 0 23 more
        let behind := hours.bind fun (_, cs) => (mark? ':' cs).bind (pair? 0 59)
        (behind.map (·.2)).getD cs
      else cs
  | [] => []

/-- A date, a time of day, or both joined. -/
def moment? (cs : List Char) : Option (Datum × List Char) :=
  match date? cs with
  | some rest =>
      let joined :=
        match rest with
        | c :: more => if c == 'T' || c == 't' || c == ' ' then time? more else none
        | [] => none
      match joined with
      | some behind => some (.moment, skipOffset behind)
      | none => some (.moment, rest)
  | none => (time? cs).map fun rest => (.moment, rest)

/-- Any value that is neither a string nor a container. -/
def scalar : ValueReader Datum := fun cs =>
  match cs with
  | 't' :: 'r' :: 'u' :: 'e' :: rest => .ok (.bool true, rest)
  | 'f' :: 'a' :: 'l' :: 's' :: 'e' :: rest => .ok (.bool false, rest)
  | _ =>
      match (moment? cs).or (special? cs) with
      | some r => .ok r
      | none => number cs

end Lox.Toml

import Lox.Decimal
import Lox.Text.Characters

/-!
# Integers in strings

The canonical text of an integer is zero, or digits that do not begin with a
zero, behind a minus sign if it is negative; sign and digits are at most
`Decimal.maxDigits` characters. A text that is not canonical is tidied once and
read again: space around it, a plus sign, zeros in front, a fraction of zeros
and underscores inside are dropped.

Only a text that begins canonically and goes on for too long is refused for its
size. One that is too long after it was tidied is just unclear.
-/
namespace Lox.Text.Integer

/-- Why a text is no integer. -/
inductive Failure where
  | unclear
  | tooLong
  deriving DecidableEq, Repr

/-- A minus sign and the text behind it. -/
def takeMinus : List Char → Bool × List Char
  | '-' :: cs => (true, cs)
  | cs => (false, cs)

/-- Reads the canonical text of an integer. The length is judged before what
follows the digits. -/
def canonical (cs : List Char) : Except Failure Int :=
  let (negative, unsigned) := takeMinus cs
  let digits := unsigned.takeWhile Char.isDigit
  let rest := unsigned.dropWhile Char.isDigit
  match digits with
  | [] => .error .unclear
  | '0' :: more => if more.isEmpty && rest.isEmpty then .ok 0 else .error .unclear
  | digits =>
      if Decimal.maxDigits < cs.length - rest.length then .error .tooLong
      else if !rest.isEmpty then .error .unclear
      else
        let n : Int := Decimal.natOfDigits digits
        .ok (if negative then -n else n)

/-- Drops the space around an integer. -/
def trim (cs : List Char) : List Char :=
  ((cs.dropWhile isSpace).reverse.dropWhile isSpace).reverse

/-- The characters at which a number begins, its zeros in front left out. -/
def beginsNumber (c : Char) : Bool :=
  (c.isDigit && c != '0') || c == '-'

/-- The text behind zeros and underscores, the last of which was `last`. That one
is kept where nothing but a fraction follows. -/
def behindZeros (last : Char) : List Char → Option (List Char)
  | [] => some [last]
  | c :: cs =>
      if c == '0' || c == '_' then behindZeros c cs
      else if c == '.' then some (last :: c :: cs)
      else if beginsNumber c then some (c :: cs)
      else none

/-- Drops zeros in front of a number, and underscores behind the first of them. -/
def dropZeros? : List Char → Option (List Char)
  | [] => none
  | c :: cs =>
      if c == '0' then behindZeros c cs
      else if beginsNumber c then some (c :: cs)
      else none

/-- Drops a fraction of zeros. -/
def dropZeroFraction (cs : List Char) : List Char :=
  let fraction := (cs.dropWhile (· != '.')).drop 1
  if !fraction.isEmpty && fraction.all (· == '0') then cs.takeWhile (· != '.') else cs

/-- Drops underscores, which must stand alone and between other characters;
`afterOther` says whether such a character stands in front. -/
def dropUnderscores? (afterOther : Bool) : List Char → Option (List Char)
  | [] => if afterOther then some [] else none
  | c :: cs =>
      if c == '_' then if afterOther then dropUnderscores? false cs else none
      else (dropUnderscores? true cs).map (c :: ·)

/-- Tidies a number without its sign. -/
def tidyUnsigned? (cs : List Char) : Option (List Char) :=
  (dropZeros? cs).bind fun ds => dropUnderscores? false (dropZeroFraction ds)

/-- Tidies a text, so that it is canonical if it can be read at all. -/
def tidy? (cs : List Char) : Option (List Char) :=
  match trim cs with
  | '+' :: '-' :: _ => none
  | '+' :: unsigned => tidyUnsigned? unsigned
  | '-' :: unsigned => (tidyUnsigned? unsigned).map ('-' :: ·)
  | unsigned => tidyUnsigned? unsigned

/-- Reads an integer, tidying its text if that is needed. -/
def read (s : String) : Except Failure Int :=
  match canonical s.toList with
  | .error .unclear =>
      match (tidy? s.toList).map canonical with
      | some (.ok n) => .ok n
      | _ => .error .unclear
  | result => result

end Lox.Text.Integer

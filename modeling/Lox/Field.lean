import Lox.Datum
import Lox.Decimal.Double
import Lox.Text.Integer

/-!
# Fields of outside data

The rules by which a datum is accepted for a field, and the issues raised by
those that are not. Rules are lenient: a boolean may be written as one of a few
words or as zero or one, an integer as a whole double or as digits in a string.
-/
namespace Lox

/-- What is wrong with the datum of a field. -/
inductive Defect where
  | missing
  | notString
  | notBoolean
  | unclearBoolean
  | unknownKind (labels : List String)
  | notNumber
  | notInteger
  | fractional
  | notFinite
  | unclearInteger
  | oversizedInteger
  | belowOne
  | unknownLevel (names : List String)
  deriving DecidableEq

/-- Texts in single quotes, the last two joined by a word. -/
def alternatives : List String → String
  | [] => ""
  | [a] => "'" ++ a ++ "'"
  | [a, b] => "'" ++ a ++ "' or '" ++ b ++ "'"
  | a :: rest => "'" ++ a ++ "', " ++ alternatives rest

namespace Defect

def code : Defect → String
  | missing => "missing"
  | notString => "string_type"
  | notBoolean => "bool_type"
  | unclearBoolean => "bool_parsing"
  | unknownKind _ => "enum"
  | notNumber => "float_type"
  | notInteger => "int_type"
  | fractional => "int_from_float"
  | notFinite => "finite_number"
  | unclearInteger => "int_parsing"
  | oversizedInteger => "int_parsing_size"
  | belowOne => "greater_than_equal"
  | unknownLevel _ => "value_error"

def message : Defect → String
  | missing => "Field required"
  | notString => "Input should be a valid string"
  | notBoolean => "Input should be a valid boolean"
  | unclearBoolean => "Input should be a valid boolean, unable to interpret input"
  | unknownKind labels => "Input should be " ++ alternatives labels
  | notNumber => "Input should be a valid number"
  | notInteger => "Input should be a valid integer"
  | fractional => "Input should be a valid integer, got a number with a fractional part"
  | notFinite => "Input should be a finite number"
  | unclearInteger => "Input should be a valid integer, unable to parse string as an integer"
  | oversizedInteger => "Unable to parse input string as an integer, exceeded maximum size"
  | belowOne => "Input should be greater than or equal to 1"
  | unknownLevel names =>
      "Value error, log_level must be one of " ++ String.intercalate ", " names

end Defect

/-- A defect and the place where it was found. -/
structure Issue where
  place : List String
  defect : Defect
  deriving DecidableEq

/-- Why outside data was not accepted. -/
inductive Refusal where
  /-- An integer that no finite double is near to. -/
  | overflow
  | issues (list : List Issue)
  deriving DecidableEq

/-- The answer to an integer that no finite double is near to. -/
def Refusal.overflowMessage : String :=
  "int too large to convert to float"

namespace Field

/-- The result of checking a field. -/
abbrev Checked (α : Type) := Except Defect α

/-- The issue of a checked field, if there is one. -/
def issues {α : Type} (name : String) : Checked α → List Issue
  | .ok _ => []
  | .error d => [⟨[name], d⟩]

/-- A field that must be there. -/
def required {α : Type} (check : Datum → Checked α) : Option Datum → Checked α
  | some d => check d
  | none => .error .missing

/-- Only strings are strings. -/
def string : Datum → Checked String
  | .string s => .ok s
  | _ => .error .notString

def falseWords : List String := ["0", "off", "f", "false", "n", "no"]

def trueWords : List String := ["1", "on", "t", "true", "y", "yes"]

/-- A boolean written as a word, in any case. -/
def booleanWord (s : String) : Checked Bool :=
  let w := s.map Char.toLower
  if falseWords.contains w then .ok false
  else if trueWords.contains w then .ok true
  else .error .unclearBoolean

/-- Half the number of integers that fit in sixty-four bits. -/
def wordLimit : Int := 9223372036854775808

/-- The integers that fit in sixty-four bits. -/
def fitsWord (n : Int) : Bool :=
  decide (-wordLimit ≤ n) && decide (n < wordLimit)

/-- The whole doubles that are taken for integers. Neither limit belongs to them. -/
def insideWord (n : Int) : Bool :=
  decide (-wordLimit < n) && decide (n < wordLimit)

/-- A boolean written as zero or one. -/
def booleanInt (n : Int) : Checked Bool :=
  if n = 0 then .ok false
  else if n = 1 then .ok true
  else .error .unclearBoolean

def boolean : Datum → Checked Bool
  | .bool b => .ok b
  | .string s => booleanWord s
  | .int n => if fitsWord n then booleanInt n else .error .notBoolean
  | .number x =>
      match Decimal.integral x with
      | .whole n => if insideWord n then booleanInt n else .error .notBoolean
      | _ => .error .notBoolean
  | _ => .error .notBoolean

def integer : Datum → Checked Int
  | .int n => .ok n
  | .bool b => .ok (if b then 1 else 0)
  | .number x =>
      match Decimal.integral x with
      | .whole n => if insideWord n then .ok n else .error .oversizedInteger
      | .fractional => .error .fractional
      | .notFinite => .error .notFinite
  | .string s =>
      match Text.Integer.read s with
      | .ok n => .ok n
      | .error .unclear => .error .unclearInteger
      | .error .tooLong => .error .oversizedInteger
  | _ => .error .notInteger

/-- Lines are counted from one. -/
def line (d : Datum) : Checked Nat :=
  match integer d with
  | .ok n => if n < 1 then .error .belowOne else .ok n.toNat
  | .error x => .error x

end Field

end Lox

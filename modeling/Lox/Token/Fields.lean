import Lox.Field
import Lox.Token

/-!
# Tokens and literals from outside data

A token or a literal handed over as data is checked field by field. Language
values know one sort of number, so an integer becomes the nearest double.
-/
namespace Lox

/-- The literal of an expression. -/
def Value.ofDatum (d : Datum) : Except Refusal Value :=
  match d with
  | .int n =>
      match Decimal.floatOfInt? n with
      | some x => .ok (.number x)
      | none => .error .overflow
  | d =>
      match d.value with
      | .ok v => .ok v
      | .error _ =>
          .error (.issues
            [⟨["value", "bool"], .notBoolean⟩, ⟨["value", "float"], .notNumber⟩,
              ⟨["value", "str"], .notString⟩])

/-- The literal of an expression, given by name. -/
def Value.ofFields (fields : Fields) : Except Refusal Value :=
  match fields.lookup "value" with
  | some d => Value.ofDatum d
  | none => .error (.issues [⟨["value"], .missing⟩])

namespace Token

/-- The literal of a token: a number, a string or nothing. A boolean counts as
one or zero. -/
def literalOf : Datum → Except Refusal Value
  | .bool b => .ok (.number (if b then 1 else 0))
  | .int n => Value.ofDatum (.int n)
  | .nil => .ok .nil
  | .number x => .ok (.number x)
  | .string s => .ok (.string s)
  | _ => .error (.issues [⟨["literal", "float"], .notNumber⟩, ⟨["literal", "str"], .notString⟩])

/-- A kind is given by its label. -/
def kindOf : Datum → Field.Checked Kind
  | .string s =>
      match Kind.ofLabel? s with
      | some k => .ok k
      | none => .error (.unknownKind Kind.labels)
  | _ => .error (.unknownKind Kind.labels)

/-- A token from its checked fields; all issues are raised, in field order. -/
def build (kind : Field.Checked Kind) (lexeme : Field.Checked String)
    (literal : Except Refusal Value) (line : Field.Checked Nat) : Except Refusal Token :=
  match literal with
  | .error .overflow => .error .overflow
  | .error (.issues found) =>
      .error (.issues (Field.issues "kind" kind ++ Field.issues "lexeme" lexeme ++ found ++
        Field.issues "line" line))
  | .ok v =>
      match kind, lexeme, line with
      | .ok k, .ok x, .ok n => .ok ⟨k, x, v, n⟩
      | _, _, _ =>
          .error (.issues (Field.issues "kind" kind ++ Field.issues "lexeme" lexeme ++
            Field.issues "line" line))

/-- A token given by name. Names of no meaning are passed over. -/
def ofFields (fields : Fields) : Except Refusal Token :=
  build (Field.required kindOf (fields.lookup "kind"))
    (Field.required Field.string (fields.lookup "lexeme"))
    (literalOf ((fields.lookup "literal").getD .nil))
    (Field.required Field.line (fields.lookup "line"))

/-- A token whose kind and lexeme are already known. -/
def ofParts (kind : Kind) (lexeme : String) (literal : Datum) (line : Int) :
    Except Refusal Token :=
  build (.ok kind) (.ok lexeme) (literalOf literal) (Field.line (.int line))

end Token

end Lox

import Lox.Piece

/-!
# Scanning

A scan numbers the lines of a source text and keeps two things of its pieces:
the tokens, closed by one end token, and the lexical errors. Whatever a piece
gives rise to carries the line on which the piece ends.
-/
namespace Lox

/-- What can be wrong with a piece of a source text. -/
inductive Flaw where
  | unexpectedCharacter
  | unterminatedString
  deriving DecidableEq, Repr

namespace Flaw

def message : Flaw → String
  | unexpectedCharacter => "Unexpected character."
  | unterminatedString => "Unterminated string."

end Flaw

/-- A piece that belongs to no token, with the line on which it ends. -/
structure LexicalError where
  flaw : Flaw
  line : Nat
  deriving DecidableEq, Repr

/-- The lexical error that a piece amounts to, given the line on which it ends. -/
def Piece.error? (line : Nat) : Piece → Option LexicalError
  | .openString _ => some ⟨.unterminatedString, line⟩
  | .stray _ => some ⟨.unexpectedCharacter, line⟩
  | _ => none

structure Scan where
  tokens : List Token
  errors : List LexicalError
  deriving DecidableEq

namespace Scan

/-- The tokens of some pieces, the first of which begins on `line`. -/
def tokensFrom (line : Nat) : List Piece → List Token
  | [] => [Token.endOf line]
  | p :: ps => (p.token? (line + p.newlines)).toList ++ tokensFrom (line + p.newlines) ps

/-- The errors of some pieces, the first of which begins on `line`. -/
def errorsFrom (line : Nat) : List Piece → List LexicalError
  | [] => []
  | p :: ps => (p.error? (line + p.newlines)).toList ++ errorsFrom (line + p.newlines) ps

/-- Reads a source text from its first line on. -/
def ofText (source : String) : Scan :=
  let ps := Piece.pieces source.toList
  ⟨tokensFrom 1 ps, errorsFrom 1 ps⟩

/-- The number of lines of a source text. -/
def lines (source : String) : Nat :=
  1 + source.toList.count '\n'

end Scan

end Lox

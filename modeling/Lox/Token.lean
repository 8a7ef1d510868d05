import Lox.Value

/-!
# Tokens

The words of the language: their kinds, the spellings of keywords and symbols,
and the one-line text of a token. A token remembers the line on which it ends.
-/
namespace Lox

/-- The kinds of token, in their order of listing. -/
inductive Kind where
  | leftParen | rightParen | leftBrace | rightBrace | comma | dot | minus | plus | semicolon
  | slash | star
  | bang | bangEqual | equal | equalEqual | greater | greaterEqual | less | lessEqual
  | identifier | string | number
  | andWord | classWord | elseWord | falseWord | funWord | forWord | ifWord | nilWord | orWord
  | printWord | returnWord | superWord | thisWord | trueWord | varWord | whileWord
  | eof
  deriving DecidableEq, Repr

namespace Kind

/-- Every kind with the name under which it is listed. -/
def names : List (Kind × String) :=
  [(leftParen, "LEFT_PAREN"), (rightParen, "RIGHT_PAREN"), (leftBrace, "LEFT_BRACE"),
    (rightBrace, "RIGHT_BRACE"), (comma, "COMMA"), (dot, "DOT"), (minus, "MINUS"),
    (plus, "PLUS"), (semicolon, "SEMICOLON"), (slash, "SLASH"), (star, "STAR"),
    (bang, "BANG"), (bangEqual, "BANG_EQUAL"), (equal, "EQUAL"), (equalEqual, "EQUAL_EQUAL"),
    (greater, "GREATER"), (greaterEqual, "GREATER_EQUAL"), (less, "LESS"),
    (lessEqual, "LESS_EQUAL"),
    (identifier, "IDENTIFIER"), (string, "STRING"), (number, "NUMBER"),
    (andWord, "AND"), (classWord, "CLASS"), (elseWord, "ELSE"), (falseWord, "FALSE"),
    (funWord, "FUN"), (forWord, "FOR"), (ifWord, "IF"), (nilWord, "NIL"), (orWord, "OR"),
    (printWord, "PRINT"), (returnWord, "RETURN"), (superWord, "SUPER"), (thisWord, "THIS"),
    (trueWord, "TRUE"), (varWord, "VAR"), (whileWord, "WHILE"), (eof, "EOF")]

/-- The name under which a kind is listed. -/
def name (k : Kind) : String :=
  (names.lookup k).getD ""

/-- The kind listed under a name. -/
def ofName? (s : String) : Option Kind :=
  (names.find? fun p => p.2 == s).map (·.1)

/-- The label by which outside data names a kind: its name in lower case. -/
def label (k : Kind) : String :=
  k.name.map Char.toLower

/-- Every label, in the order of listing. -/
def labels : List String :=
  names.map fun p => p.1.label

/-- The kind that a label names. -/
def ofLabel? (s : String) : Option Kind :=
  (names.find? fun p => p.1.label == s).map (·.1)

/-- The reserved words. -/
def keywords : List (String × Kind) :=
  [("and", andWord), ("class", classWord), ("else", elseWord), ("false", falseWord),
    ("for", forWord), ("fun", funWord), ("if", ifWord), ("nil", nilWord), ("or", orWord),
    ("print", printWord), ("return", returnWord), ("super", superWord), ("this", thisWord),
    ("true", trueWord), ("var", varWord), ("while", whileWord)]

/-- A word that is not reserved is an identifier. -/
def ofWord (w : String) : Kind :=
  (keywords.lookup w).getD identifier

/-- The kind of a symbol of one character. -/
def ofMark? : Char → Option Kind
  | '(' => some leftParen
  | ')' => some rightParen
  | '\x7b' => some leftBrace
  | '\x7d' => some rightBrace
  | ',' => some comma
  | '.' => some dot
  | '-' => some minus
  | '+' => some plus
  | ';' => some semicolon
  | '/' => some slash
  | '*' => some star
  | '!' => some bang
  | '=' => some equal
  | '<' => some less
  | '>' => some greater
  | _ => none

/-- The kind of a symbol of two characters, the second being an equals sign. -/
def ofPair? : Char → Option Kind
  | '!' => some bangEqual
  | '=' => some equalEqual
  | '<' => some lessEqual
  | '>' => some greaterEqual
  | _ => none

/-- Keywords that can only begin a statement. -/
def beginsStatement : Kind → Bool
  | classWord | funWord | varWord | forWord | ifWord | whileWord | printWord | returnWord => true
  | _ => false

end Kind

/-- A word of a program with the data decoded from it. -/
structure Token where
  kind : Kind
  lexeme : String
  /-- What a number or string token stands for; nil for all others. -/
  literal : Value
  line : Nat
  deriving DecidableEq

namespace Token

/-- The token behind the last word of a program. -/
def endOf (line : Nat) : Token :=
  ⟨.eof, "", .nil, line⟩

/-- The text of a literal inside the text of its token. -/
def literalText : Value → String
  | .nil => "null"
  | .number x => Decimal.Layout.plain.write x
  | v => v.text

/-- Kind, lexeme and literal on one line. -/
def text (t : Token) : String :=
  t.kind.name ++ " " ++ t.lexeme ++ " " ++ literalText t.literal

end Token

end Lox

/-!
# Quoted TOML text

The four forms of string. Double quotes know escapes, single quotes none; three
quotes allow line breaks inside, drop one right behind them, and give back up to
two quotes in front of their end. Control characters other than the tab are
refused everywhere.
-/
namespace Lox.Toml

/-- Reads something off the front of a text. -/
abbrev TextReader (α : Type) := List Char → Option (α × List Char)

/-- Control characters that may stand neither in strings nor in comments. -/
def isControl (c : Char) : Bool :=
  (c.toNat < 0x20 && c != '\t') || c.toNat == 0x7f

/-- The character with the code point spelled by hexadecimal digits. -/
def codePoint? (digits : List Char) : Option Char :=
  let value (c : Char) : Option Nat :=
    if c.isDigit then some (c.toNat - '0'.toNat)
    else if 'a' ≤ c ∧ c ≤ 'f' then some (c.toNat - 'a'.toNat + 10)
    else if 'A' ≤ c ∧ c ≤ 'F' then some (c.toNat - 'A'.toNat + 10)
    else none
  let number := digits.foldl (fun n c => n.bind fun n => (value c).map (16 * n + ·)) (some 0)
  number.bind fun n =>
    if n < 0xd800 ∨ (0xdfff < n ∧ n < 0x110000) then some (Char.ofNat n) else none

/-- The character behind a backslash and one letter. -/
def escaped? : Char → Option Char
  | 'b' => some '\x08'
  | 't' => some '\t'
  | 'n' => some '\n'
  | 'f' => some '\x0c'
  | 'r' => some '\r'
  | '"' => some '"'
  | '\\' => some '\\'
  | _ => none

/-- Puts a character in front of what was read, if there are both. -/
def push (c : Option Char) (r : Option (List Char × List Char)) :
    Option (List Char × List Char) :=
  match c, r with
  | some c, some (cs, rest) => some (c :: cs, rest)
  | _, _ => none

/-- The rest of a string in double quotes. -/
def basicBody : TextReader (List Char)
  | '"' :: cs => some ([], cs)
  | '\\' :: 'u' :: a :: b :: c :: d :: cs => push (codePoint? [a, b, c, d]) (basicBody cs)
  | '\\' :: 'U' :: a :: b :: c :: d :: e :: f :: g :: h :: cs =>
      push (codePoint? [a, b, c, d, e, f, g, h]) (basicBody cs)
  | '\\' :: c :: cs => push (escaped? c) (basicBody cs)
  | c :: cs => if isControl c then none else push (some c) (basicBody cs)
  | [] => none

/-- The rest of a string in single quotes. -/
def literalBody : TextReader (List Char)
  | [] => none
  | c :: cs =>
      if c == '\x27' then some ([], cs)
      else if isControl c then none
      else push (some c) (literalBody cs)

/-- Up to two more quotes right behind the end of a string in three quotes
belong to the string. -/
def extraQuotes (q : Char) : List Char → List Char × List Char
  | a :: b :: cs =>
      if a == q && b == q then ([q, q], cs)
      else if a == q then ([q], b :: cs)
      else ([], a :: b :: cs)
  | [a] => if a == q then ([q], []) else ([], [a])
  | [] => ([], [])

/-- What a backslash at the end of a line has done so far: nothing, it waits for
the line break, or it swallows blank space behind the break. -/
inductive Fold where
  | no
  | waiting
  | swallowing
  deriving DecidableEq, Repr

/-- The rest of a string in three double quotes. -/
def longBasicBody : Fold → TextReader (List Char)
  | _, [] => none
  | .waiting, c :: cs =>
      if c == ' ' || c == '\t' then longBasicBody .waiting cs
      else if c == '\n' then longBasicBody .swallowing cs
      else none
  | .swallowing, ' ' :: cs => longBasicBody .swallowing cs
  | .swallowing, '\t' :: cs => longBasicBody .swallowing cs
  | .swallowing, '\n' :: cs => longBasicBody .swallowing cs
  | _, '"' :: '"' :: '"' :: cs => some (extraQuotes '"' cs)
  | _, '\\' :: ' ' :: cs => longBasicBody .waiting cs
  | _, '\\' :: '\t' :: cs => longBasicBody .waiting cs
  | _, '\\' :: '\n' :: cs => longBasicBody .swallowing cs
  | _, '\\' :: 'u' :: a :: b :: c :: d :: cs =>
      push (codePoint? [a, b, c, d]) (longBasicBody .no cs)
  | _, '\\' :: 'U' :: a :: b :: c :: d :: e :: f :: g :: h :: cs =>
      push (codePoint? [a, b, c, d, e, f, g, h]) (longBasicBody .no cs)
  | _, '\\' :: c :: cs => push (escaped? c) (longBasicBody .no cs)
  | _, c :: cs =>
      if isControl c && c != '\n' then none else push (some c) (longBasicBody .no cs)

/-- The rest of a string in three single quotes. -/
def longLiteralBody : TextReader (List Char)
  | [] => none
  | c :: cs =>
      if c == '\x27' && (cs.take 2 == ['\x27', '\x27']) then
        some (extraQuotes '\x27' (cs.drop 2))
      else if isControl c && c != '\n' then none
      else push (some c) (longLiteralBody cs)

/-- A line break right behind three opening quotes is dropped. -/
def dropBreak : List Char → List Char
  | '\n' :: cs => cs
  | cs => cs

/-- A string on one line, in either sort of quotes. -/
def shortString : TextReader (List Char)
  | '"' :: cs => basicBody cs
  | c :: cs => if c == '\x27' then literalBody cs else none
  | [] => none

/-- A string in any of the four forms. -/
def anyString : TextReader (List Char)
  | '"' :: '"' :: '"' :: cs => longBasicBody .no (dropBreak cs)
  | c :: cs =>
      if c == '\x27' && (cs.take 2 == ['\x27', '\x27']) then
        longLiteralBody (dropBreak (cs.drop 2))
      else shortString (c :: cs)
  | [] => none

end Lox.Toml

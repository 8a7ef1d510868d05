import Lox.Toml.Node
import Lox.Toml.Scalar

/-!
# TOML documents

A document is a sequence of lines: headers, assignments, comments and nothing.
Arrays may run over several lines, inline tables may not. A text that is no
document is refused as a whole, for the first thing in it that cannot be read.

Every recursion is bounded by the length of the text.
-/
namespace Lox.Toml

def isBlank (c : Char) : Bool := c == ' ' || c == '\t'

def skipBlanks (cs : List Char) : List Char := cs.dropWhile isBlank

/-- The text behind a comment, if one begins here. -/
def skipComment? (cs : List Char) : Option (List Char) :=
  match cs with
  | '#' :: more =>
      if (more.takeWhile (· != '\n')).any isControl then none
      else some (more.dropWhile (· != '\n'))
  | _ => some cs

/-- The text behind blanks, line breaks and comments; the flag says whether a
comment is being passed. -/
def skipGap? : Bool → List Char → Option (List Char)
  | _, [] => some []
  | true, c :: cs =>
      if c == '\n' then skipGap? false cs
      else if isControl c then none
      else skipGap? true cs
  | false, c :: cs =>
      if isBlank c || c == '\n' then skipGap? false cs
      else if c == '#' then skipGap? true cs
      else some (c :: cs)

/-- The characters of a name without quotes. -/
def isBare (c : Char) : Bool :=
  c.isAlphanum || c == '-' || c == '_'

/-- One name of a key. -/
def keyPart? : TextReader String
  | [] => none
  | c :: cs =>
      if isBare c then
        some (String.ofList ((c :: cs).takeWhile isBare), (c :: cs).dropWhile isBare)
      else (shortString (c :: cs)).map fun (s, rest) => (String.ofList s, rest)

/-- Names joined by points, at most `n` of them. -/
def key? : Nat → TextReader (List String)
  | 0, _ => none
  | n + 1, cs =>
      match keyPart? cs with
      | none => none
      | some (name, rest) =>
          match skipBlanks rest with
          | '.' :: more => (key? n (skipBlanks more)).map fun (names, rest) => (name :: names, rest)
          | rest => some ([name], rest)

/-- The names in front of the last one, and the last one. -/
def splitKey (names : List String) : List String × String :=
  (names.dropLast, names.getLastD "")

mutual

/-- A value of any sort. -/
def value : Nat → ValueReader Datum
  | 0, _ => .error .malformed
  | n + 1, cs =>
      match cs with
      | '[' :: more =>
          match skipGap? false more with
          | some rest => items n [] rest
          | none => .error .malformed
      | '\x7b' :: more =>
          match skipBlanks more with
          | '\x7d' :: rest => .ok (.table [], rest)
          | rest => pairs n [] rest
      | c :: _ =>
          if c == '"' || c == '\x27' then
            (required (anyString cs)).map fun (s, rest) => (.string (String.ofList s), rest)
          else scalar cs
      | [] => .error .malformed

/-- The items of an array up to its end, those `before` having been read. -/
def items : Nat → List Datum → ValueReader Datum
  | 0, _, _ => .error .malformed
  | n + 1, before, cs =>
      match cs with
      | ']' :: rest => .ok (.list before, rest)
      | _ =>
          match value n cs with
          | .error e => .error e
          | .ok (d, rest) =>
              match skipGap? false rest with
              | some (']' :: rest) => .ok (.list (before ++ [d]), rest)
              | some (',' :: rest) =>
                  match skipGap? false rest with
                  | some rest => items n (before ++ [d]) rest
                  | none => .error .malformed
              | _ => .error .malformed

/-- The assignments of an inline table up to its end, which must not follow a
comma. -/
def pairs : Nat → Entries → ValueReader Datum
  | 0, _, _ => .error .malformed
  | n + 1, before, cs =>
      match assignment n cs with
      | .error e => .error e
      | .ok ((names, d), rest) =>
          match before.assign 0 [] (splitKey names).1 (splitKey names).2 d with
          | none => .error .malformed
          | some entries =>
              match skipBlanks rest with
              | '\x7d' :: rest => .ok (.table (Node.fields entries), rest)
              | ',' :: rest => pairs n entries (skipBlanks rest)
              | _ => .error .malformed

/-- A key, an equals sign and a value. -/
def assignment : Nat → ValueReader (List String × Datum)
  | 0, _ => .error .malformed
  | n + 1, cs =>
      match key? (cs.length + 1) cs with
      | some (names, '=' :: rest) =>
          (value n (skipBlanks rest)).map fun (d, rest) => ((names, d), rest)
      | _ => .error .malformed

end

/-- A document in the making: its entries, the number of the current section and
the header that opened it. -/
structure Draft where
  entries : Entries
  number : Nat
  header : List String

namespace Draft

def empty : Draft := ⟨[], 0, []⟩

/-- Opens a table by its header. -/
def openTable? (d : Draft) (cs : List Char) : Option (Draft × List Char) :=
  match key? (cs.length + 1) (skipBlanks cs) with
  | some (names, ']' :: rest) =>
      (d.entries.openTable (splitKey names).1 (splitKey names).2).map fun entries =>
        (⟨entries, d.number + 1, names⟩, rest)
  | _ => none

/-- Appends a table to a list of tables by its header. -/
def appendTable? (d : Draft) (cs : List Char) : Option (Draft × List Char) :=
  match key? (cs.length + 1) (skipBlanks cs) with
  | some (names, ']' :: ']' :: rest) =>
      (d.entries.appendTable (splitKey names).1 (splitKey names).2).map fun entries =>
        (⟨entries, d.number + 1, names⟩, rest)
  | _ => none

/-- Adds an assignment to the current section. -/
def assign (d : Draft) (cs : List Char) : Except Failure (Draft × List Char) :=
  match assignment (2 * cs.length + 2) cs with
  | .error e => .error e
  | .ok ((names, x), rest) =>
      (required (d.entries.assign d.number d.header (splitKey names).1 (splitKey names).2 x)).map
        fun entries => (⟨entries, d.number, d.header⟩, rest)

/-- What begins a line, blanks and a comment behind it not included. -/
def statement (d : Draft) (cs : List Char) : Except Failure (Draft × List Char) :=
  match cs with
  | [] => .ok (d, [])
  | '[' :: '[' :: more => required (d.appendTable? more)
  | '[' :: more => required (d.openTable? more)
  | c :: _ =>
      if c == '\n' || c == '#' then .ok (d, cs)
      else d.assign cs

/-- At most `n` lines of a document. -/
def lines : Nat → Draft → List Char → Except Failure Draft
  | 0, _, _ => .error .malformed
  | n + 1, d, cs =>
      match d.statement (skipBlanks cs) with
      | .error e => .error e
      | .ok (d, rest) =>
          match skipComment? (skipBlanks rest) with
          | some [] => .ok d
          | some ('\n' :: rest) => lines n d rest
          | _ => .error .malformed

end Draft

/-- Line ends of two characters count as one. -/
def joinLineEnds : List Char → List Char
  | [] => []
  | '\r' :: '\n' :: cs => '\n' :: joinLineEnds cs
  | c :: cs => c :: joinLineEnds cs

/-- The table that a text describes. -/
def parse (text : List Char) : Except Failure Fields :=
  let cs := joinLineEnds text
  (Draft.lines (cs.length + 1) Draft.empty cs).map fun d => Node.fields d.entries

end Lox.Toml

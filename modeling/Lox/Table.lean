import Lox.Text.Screen
import Lox.Token

/-!
# Tables

A table has a title, a header and rows of cells in columns. A column is as wide
as its widest line; a cell of several lines makes its row as high. The first
column is set to the right, the others to the left. Tabs are written out when
the widths are settled, and may make a cell break into more lines.
-/
namespace Lox

structure Table where
  title : String
  header : List String
  rows : List (List String)

namespace Table

/-- The characters of a cell. -/
def cellText (cell : String) : List Char :=
  Text.Screen.dropMoves cell.toList

/-- The lines of a cell in a column of `w`; there is always at least one. -/
def lines (w : Nat) (cell : String) : List (List Char) :=
  (Text.Screen.lines (cellText cell)).flatMap fun line =>
    (Text.Screen.wrap w false line).map (Text.Screen.shorten w)

/-- The width that a cell asks for. -/
def width (cell : String) : Nat :=
  Text.Screen.measure (cellText cell)

/-- The width of every column. -/
def widths (t : Table) : List Nat :=
  t.rows.foldl (fun ws row => List.zipWith max ws (row.map width)) (t.header.map width)

/-- The width of the whole table. -/
def total (ws : List Nat) : Nat :=
  ws.foldl (fun n w => n + w + 3) 1

def padRight (n : Nat) (cs : List Char) : List Char :=
  cs ++ List.replicate (n - Text.Screen.width cs) ' '

def padLeft (n : Nat) (cs : List Char) : List Char :=
  List.replicate (n - Text.Screen.width cs) ' ' ++ cs

/-- One line of a row: every cell between two spaces, cells a space apart. -/
def lineOf (ws : List Nat) (cells : List (List Char)) : List Char :=
  let padded :=
    match List.zip ws cells with
    | [] => []
    | (w, c) :: rest => padLeft w c :: rest.map fun (w, c) => padRight w c
  ' ' :: (padded.flatMap fun c => ' ' :: (c ++ [' ', ' ']))

/-- The lines of a row. -/
def rowLines (ws : List Nat) (row : List String) : List (List Char) :=
  let cells := List.zipWith lines ws row
  let height := (cells.map List.length).foldl max 1
  (List.range height).map fun i => lineOf ws (cells.map fun ls => ls.getD i [])

/-- A title in the middle of as many lines as it takes. -/
def centred (w : Nat) (title : String) : List (List Char) :=
  (Text.Screen.lines (cellText title)).flatMap fun line =>
    (Text.Screen.wrap w true line).map fun part =>
      let shown := Text.Screen.trimRight part
      padRight w (List.replicate ((w - Text.Screen.width shown) / 2) ' ' ++ shown)

/-- The text of a table, every line ended. -/
def text (t : Table) : String :=
  let ws := t.widths
  let w := total ws
  let blank := List.replicate w ' '
  let rule := ' ' :: (List.replicate (w - 2) '─' ++ [' '])
  let all := centred w t.title ++ [blank] ++ rowLines ws t.header ++
    [rule] ++ t.rows.flatMap (rowLines ws) ++ [blank]
  String.ofList (all.flatMap (· ++ ['\n']))

/-- A literal in a cell. -/
def literalCell : Value → String
  | .nil => ""
  | .string s => String.ofList (Text.Quoted.encode s.toList)
  | v => Token.literalText v

/-- The table of some tokens. -/
def ofTokens (title : String) (ts : List Token) : Table :=
  ⟨title, ["Line", "Kind", "Lexeme", "Literal"],
    ts.map fun t =>
      [String.ofList (Nat.toDigits 10 t.line), t.kind.name, t.lexeme, literalCell t.literal]⟩

end Table

end Lox

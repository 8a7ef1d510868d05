import Lox.Text.Characters

/-!
# Text on a screen

What is shown is put in quotes, freed from control sequences or set in lines.

A string shown inside a table stands in single quotes, or in double quotes if it
holds a single quote and no double one. Characters that would not show are
written as escapes.
-/
namespace Lox.Text.Quoted

/-- A number as `width` hexadecimal digits. -/
def hexDigits (width n : Nat) : List Char :=
  let ds := Nat.toDigits 16 n
  List.replicate (width - ds.length) '0' ++ ds

/-- One character between the quotes `q`. -/
def escape (q c : Char) : List Char :=
  if c == q || c == '\\' then ['\\', c]
  else if c == '\n' then ['\\', 'n']
  else if c == '\r' then ['\\', 'r']
  else if c == '\t' then ['\\', 't']
  else if !Invisible.isInvisible c then [c]
  else if c.toNat < 0x100 then '\\' :: 'x' :: hexDigits 2 c.toNat
  else if c.toNat < 0x10000 then '\\' :: 'u' :: hexDigits 4 c.toNat
  else '\\' :: 'U' :: hexDigits 8 c.toNat

/-- The quote that a string is put in. -/
def quoteOf (cs : List Char) : Char :=
  if cs.contains '\'' && !cs.contains '"' then '"' else '\''

/-- A string in quotes. -/
def encode (cs : List Char) : List Char :=
  let q := quoteOf cs
  q :: (cs.flatMap (escape q) ++ [q])

end Lox.Text.Quoted

/-!
## Control sequences

A terminal is told about colours and the like by control sequences: an escape
character, a bracket, parameters and one letter. They mean nothing to a stream
that is no terminal, and are left out of what is written there.
-/
namespace Lox.Text.ControlSequence

/-- The characters of parameters: digits, semicolons and question marks. -/
def isParameter (c : Char) : Bool :=
  c.isDigit || c == ';' || c == '?'

/-- The length of parameters and the letter behind them. -/
def tailLength? : List Char → Option Nat
  | [] => none
  | c :: cs =>
      if c.isAlpha then some 1
      else if isParameter c then (tailLength? cs).map (· + 1)
      else none

/-- The length of the control sequence at the front of a text. -/
def length? : List Char → Option Nat
  | '\x1b' :: '[' :: cs => (tailLength? cs).map (· + 2)
  | _ => none

/-- Leaves out control sequences, the first `skipped` characters being the rest
of one. What is left is not looked at again, even if it forms another. -/
def stripFrom : Nat → List Char → List Char
  | _, [] => []
  | skipped + 1, _ :: cs => stripFrom skipped cs
  | 0, c :: cs =>
      match length? (c :: cs) with
      | some n => stripFrom (n - 1) cs
      | none => c :: stripFrom 0 cs

/-- Leaves control sequences out of a text. -/
def strip (s : String) : String :=
  String.ofList (stripFrom 0 s.toList)

end Lox.Text.ControlSequence

/-!
## Lines

A control character or a combining mark takes no column of a screen, any other
character one. A tab leads to the next multiple of eight columns. A line that has
become too wide is broken in front of a word; a word that is too wide for any line is
either cut into pieces or left as it is. Characters of two columns are not known here.
-/
namespace Lox.Text.Screen

/-- Characters that take no column: controls, combining marks, and marks of
direction and of breaking. -/
def columnless : List (Nat × Nat) :=
  [(0x00, 0x1f), (0x7f, 0x9f), (0x300, 0x36f), (0x200b, 0x200f), (0x2028, 0x202e),
    (0x2060, 0x2063)]

/-- The columns that a character takes. -/
def columns (c : Char) : Nat :=
  if columnless.any fun r => decide (r.1 ≤ c.toNat) && decide (c.toNat ≤ r.2) then 0 else 1

def width (cs : List Char) : Nat :=
  cs.foldl (fun n c => n + columns c) 0

/-- Bells, backspaces, vertical tabs, form feeds and carriage returns would move
the cursor and are left out. -/
def movesCursor (c : Char) : Bool :=
  c.toNat == 7 || c.toNat == 8 || c.toNat == 11 || c.toNat == 12 || c.toNat == 13

def dropMoves (cs : List Char) : List Char :=
  cs.filter fun c => !movesCursor c

/-- Cuts a text at the characters that `ends` picks; there is always one part. -/
def splitAt (ends : Char → Bool) : List Char → List (List Char)
  | [] => [[]]
  | c :: cs =>
      match splitAt ends cs with
      | l :: ls => if ends c then [] :: l :: ls else (c :: l) :: ls
      | [] => [[c]]

/-- The lines of a text. -/
def lines (cs : List Char) : List (List Char) :=
  splitAt (· == '\n') cs

/-- The characters at which a text is cut before it is measured. -/
def endsMeasure (c : Char) : Bool :=
  let n := c.toNat
  c == '\n' || (0x1c ≤ n && n ≤ 0x1e) || n == 0x85 || n == 0x2028 || n == 0x2029

/-- The room that is set aside for a text: the width of its widest part. Tabs are
not counted. -/
def measure (cs : List Char) : Nat :=
  ((splitAt endsMeasure cs).map width).foldl max 0

/-- Writes tabs as spaces, the text beginning in the column `col`. -/
def expandTabs (col : Nat) : List Char → List Char
  | [] => []
  | c :: cs =>
      if c == '\t' then
        List.replicate (8 - col % 8) ' ' ++ expandTabs (col + (8 - col % 8)) cs
      else c :: expandTabs (col + columns c) cs

/-- Space between words. -/
def isGap (c : Char) : Bool :=
  isSpace c || isControlSeparator c

def trimRight (cs : List Char) : List Char :=
  (cs.reverse.dropWhile isGap).reverse

/-- Puts a character in front of space and words. -/
def consWord (c : Char) : List Char × List (List Char) → List Char × List (List Char)
  | ([], word :: words) =>
      if isGap c then ([c], word :: words) else ([], (c :: word) :: words)
  | (space, words) =>
      if isGap c then (c :: space, words) else ([], (c :: space) :: words)

/-- The words of a line, each with the space behind it. Space in front of the
first word belongs to it; a line of space only has no words. -/
def words (cs : List Char) : List (List Char) :=
  match cs.foldr consWord ([], []) with
  | (space, word :: words) => (space ++ word) :: words
  | (_, []) => []

/-- Cuts a word into pieces of at most `w` columns; the first has `room` left. -/
def chop (w room : Nat) : List Char → List (List Char)
  | [] => [[]]
  | c :: cs =>
      if columns c ≤ room then
        match chop w (room - columns c) cs with
        | piece :: pieces => (c :: piece) :: pieces
        | [] => [[c]]
      else
        match chop w (w - columns c) cs with
        | piece :: pieces => [] :: (c :: piece) :: pieces
        | [] => [[], [c]]

/-- Sets words in lines of `w` columns, behind what the first line already holds.
Space behind the last word of a line may stand out. -/
def setWords (w : Nat) (cutting : Bool) (line : List Char) : List (List Char) → List (List Char)
  | [] => [line]
  | word :: words =>
      let needed := width (trimRight word)
      if width line + needed ≤ w then setWords w cutting (line ++ word) words
      else
        let before := if line.isEmpty then [] else [line]
        if needed ≤ w || !cutting then before ++ setWords w cutting word words
        else
          let pieces := chop w w word
          before ++ pieces.dropLast ++ setWords w cutting (pieces.getLastD []) words

/-- Takes away space at the end of a line as far as it stands out. -/
def trimExcess (w : Nat) (cs : List Char) : List Char :=
  let space := cs.length - (trimRight cs).length
  cs.take (cs.length - min space (cs.length - w))

/-- The lines of at most `w` columns that a line is broken into, but for words
that are wider and not to be cut. -/
def wrap (w : Nat) (cutting : Bool) (cs : List Char) : List (List Char) :=
  let line := expandTabs 0 cs
  let broken :=
    match words line with
    | [] => [line]
    | ws => setWords w cutting [] ws
  broken.map (trimExcess w)

/-- The first `w` columns of a line. -/
def takeColumns : Nat → List Char → List Char
  | _, [] => []
  | w, c :: cs => if columns c ≤ w then c :: takeColumns (w - columns c) cs else []

/-- Shortens a line that is still too wide, marking the place. -/
def shorten (w : Nat) (cs : List Char) : List Char :=
  if width cs ≤ w then cs else takeColumns (w - 1) cs ++ ['…']

end Lox.Text.Screen

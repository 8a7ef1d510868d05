import Lox.Token

/-!
# Pieces of a source text

A source text falls apart into pieces: blanks, line breaks, comments, strings,
numbers, words, symbols and stray characters. Every character lies in exactly
one piece, and the pieces follow each other without gaps. The first character
of a piece and at most two after it decide its class; each piece is then as
long as its class allows.
-/
namespace Lox

inductive Piece where
  | blank (c : Char)
  | newline
  /-- What follows the two slashes. -/
  | comment (body : List Char)
  /-- What stands between the quotes. -/
  | string (body : List Char)
  /-- What follows a quote that is never closed. -/
  | openString (body : List Char)
  /-- Digits, and the digits behind the point if there are any. -/
  | number (whole fraction : List Char)
  | word (letters : List Char)
  | symbol (spelling : List Char) (kind : Kind)
  | stray (c : Char)
  deriving DecidableEq, Repr

namespace Piece

/-- The characters of a piece. -/
def text : Piece → List Char
  | blank c => [c]
  | newline => ['\n']
  | comment body => '/' :: '/' :: body
  | string body => '"' :: (body ++ ['"'])
  | openString body => '"' :: body
  | number whole [] => whole
  | number whole fraction => whole ++ '.' :: fraction
  | word letters => letters
  | symbol spelling _ => spelling
  | stray c => [c]

/-- How many line breaks a piece contains. -/
def newlines (p : Piece) : Nat :=
  p.text.count '\n'

/-- Spaces, carriage returns and tabs separate words. -/
def isBlank (c : Char) : Bool :=
  c == ' ' || c == '\r' || c == '\t'

def beginsWord (c : Char) : Bool :=
  c.isAlpha || c == '_'

def continuesWord (c : Char) : Bool :=
  c.isAlphanum || c == '_'

/-- The comment whose two slashes have been read. -/
def cutComment (cs : List Char) : Piece × List Char :=
  (comment (cs.takeWhile (· != '\n')), cs.dropWhile (· != '\n'))

/-- The string whose opening quote has been read. -/
def cutString (cs : List Char) : Piece × List Char :=
  match cs.dropWhile (· != '"') with
  | [] => (openString cs, [])
  | _ :: rest => (string (cs.takeWhile (· != '"')), rest)

/-- The number that begins with the digit `c`. A point belongs to it only if a
digit follows. -/
def cutNumber (c : Char) (cs : List Char) : Piece × List Char :=
  let whole := c :: cs.takeWhile Char.isDigit
  match cs.dropWhile Char.isDigit with
  | '.' :: d :: more =>
      if d.isDigit then
        (number whole (d :: more.takeWhile Char.isDigit), more.dropWhile Char.isDigit)
      else (number whole [], '.' :: d :: more)
  | rest => (number whole [], rest)

/-- The word that begins with `c`. -/
def cutWord (c : Char) (cs : List Char) : Piece × List Char :=
  (word (c :: cs.takeWhile continuesWord), cs.dropWhile continuesWord)

/-- A symbol of one character, or a stray character. -/
def cutMark (c : Char) (cs : List Char) : Piece × List Char :=
  match Kind.ofMark? c with
  | some k => (symbol [c] k, cs)
  | none => (stray c, cs)

/-- A symbol, the longer one if two begin here, or a stray character. -/
def cutSymbol (c : Char) (cs : List Char) : Piece × List Char :=
  match cs, Kind.ofPair? c with
  | '=' :: rest, some k => (symbol [c, '='] k, rest)
  | _, _ => cutMark c cs

/-- The piece that begins with `c`, and the text behind it. -/
def cut (c : Char) (cs : List Char) : Piece × List Char :=
  if isBlank c then (blank c, cs)
  else if c == '\n' then (newline, cs)
  else if c == '"' then cutString cs
  else if c.isDigit then cutNumber c cs
  else if beginsWord c then cutWord c cs
  else
    match c, cs with
    | '/', '/' :: rest => cutComment rest
    | _, _ => cutSymbol c cs

theorem dropWhile_length_le (p : Char → Bool) (cs : List Char) :
    (cs.dropWhile p).length ≤ cs.length :=
  (List.dropWhile_suffix p).length_le

theorem cutString_length_le (cs : List Char) : (cutString cs).2.length ≤ cs.length := by
  have h := dropWhile_length_le (· != '"') cs
  unfold cutString
  split
  · simp
  · rename_i rest heq
    rw [heq] at h
    simp only [List.length_cons] at h ⊢
    omega

theorem cutNumber_length_le (c : Char) (cs : List Char) :
    (cutNumber c cs).2.length ≤ cs.length := by
  have h := dropWhile_length_le Char.isDigit cs
  unfold cutNumber
  split
  · rename_i d more heq
    rw [heq] at h
    have h' := dropWhile_length_le Char.isDigit more
    simp only [List.length_cons] at h
    split <;> simp only [List.length_cons] <;> omega
  · exact h

theorem cutSymbol_length_le (c : Char) (cs : List Char) :
    (cutSymbol c cs).2.length ≤ cs.length := by
  unfold cutSymbol
  split
  · simp
  · unfold cutMark
    split <;> simp

/-- Nothing but the piece is taken: what remains is no longer than what stood
behind the first character. -/
theorem cut_length_le (c : Char) (cs : List Char) : (cut c cs).2.length ≤ cs.length := by
  unfold cut
  split
  · simp
  split
  · simp
  split
  · exact cutString_length_le cs
  split
  · exact cutNumber_length_le c cs
  split
  · exact dropWhile_length_le continuesWord cs
  split
  · simp only [cutComment, List.length_cons]
    exact Nat.le_succ_of_le (dropWhile_length_le _ _)
  · exact cutSymbol_length_le c cs

theorem cutString_text (cs : List Char) :
    (cutString cs).1.text ++ (cutString cs).2 = '"' :: cs := by
  have whole := List.takeWhile_append_dropWhile (p := (· != '"')) (l := cs)
  unfold cutString
  split
  · simp [text]
  · rename_i q rest found
    have quote : (q != '"') = false := by
      have h := List.head?_dropWhile_not (· != '"') cs
      rw [found] at h
      simpa using h
    rw [found] at whole
    have same : q = '"' := by simpa using quote
    subst same
    simp only [text, List.cons_append, List.append_assoc, List.nil_append]
    rw [whole]

theorem cutNumber_text (c : Char) (cs : List Char) :
    (cutNumber c cs).1.text ++ (cutNumber c cs).2 = c :: cs := by
  have whole := List.takeWhile_append_dropWhile (p := Char.isDigit) (l := cs)
  unfold cutNumber
  split
  · rename_i d more found
    rw [found] at whole
    split
    · simp only [text, List.cons_append, List.append_assoc,
        List.takeWhile_append_dropWhile]
      rw [whole]
    · simp only [text, List.cons_append]
      rw [whole]
  · simp only [text, List.cons_append]
    rw [whole]

theorem cutSymbol_text (c : Char) (cs : List Char) :
    (cutSymbol c cs).1.text ++ (cutSymbol c cs).2 = c :: cs := by
  unfold cutSymbol
  split
  · simp [text]
  · unfold cutMark
    split <;> simp [text]

/-- A piece and the text behind it make up the text. -/
theorem cut_text (c : Char) (cs : List Char) : (cut c cs).1.text ++ (cut c cs).2 = c :: cs := by
  unfold cut
  split
  · simp [text]
  split
  · rename_i newline
    have same : c = '\n' := by simpa using newline
    subst same
    simp [text]
  split
  · rename_i quote
    have same : c = '"' := by simpa using quote
    subst same
    exact cutString_text cs
  split
  · exact cutNumber_text c cs
  split
  · simp [cutWord, text, List.takeWhile_append_dropWhile]
  split
  · simp [cutComment, text, List.takeWhile_append_dropWhile]
  · exact cutSymbol_text c cs

/-- The pieces of a text, in order. -/
def pieces : List Char → List Piece
  | [] => []
  | c :: cs => (cut c cs).1 :: pieces (cut c cs).2
termination_by cs => cs.length
decreasing_by
  have h := cut_length_le c cs
  simp only [List.length_cons]
  omega

/-- The pieces of a text make it up, without gaps and without overlaps. -/
theorem pieces_text (cs : List Char) : (pieces cs).flatMap text = cs := by
  induction cs using pieces.induct with
  | case1 => simp [pieces]
  | case2 c cs ih =>
      rw [pieces, List.flatMap_cons, ih]
      exact cut_text c cs

/-- The token that a piece stands for, if it is a word of the language, given
the line on which the piece ends. -/
def token? (line : Nat) (p : Piece) : Option Token :=
  let lexeme := String.ofList p.text
  match p with
  | string body => some ⟨.string, lexeme, .string (String.ofList body), line⟩
  | number whole fraction =>
      some ⟨.number, lexeme, .number (Decimal.ofDigits whole fraction).toFloat, line⟩
  | word _ => some ⟨Kind.ofWord lexeme, lexeme, .nil, line⟩
  | symbol _ kind => some ⟨kind, lexeme, .nil, line⟩
  | _ => none

end Piece

end Lox

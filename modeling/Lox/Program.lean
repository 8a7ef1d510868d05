import Lox.Parser

/-!
# Programs

A program is read statement by statement. A statement that cannot be read gives
one error, and reading goes on at the next boundary: behind a semicolon, or in
front of a keyword that begins a statement. The program is thus cut into
segments, each of them one statement or one error.
-/
namespace Lox

/-- Tokens up to the first end token, and that token. -/
structure TokenStream where
  body : List Token
  stop : Token
  deriving DecidableEq

namespace TokenStream

/-- Tokens can be read if an end token is the last of them. What stands behind
the first end token is out of reach. -/
def ofTokens? (ts : List Token) : Option TokenStream :=
  match ts.getLast? with
  | none => none
  | some last =>
      if last.kind = .eof then
        some ⟨ts.takeWhile (·.kind ≠ .eof), (ts.find? (·.kind = .eof)).getD last⟩
      else none

/-- The answer to tokens that cannot be read. -/
def unreadable : String :=
  "Token stream must end with an EOF token"

end TokenStream

/-- A stretch of a program: a statement, or an error and what it gave up. -/
inductive Segment where
  | statement (s : Stmt)
  | error (e : SyntaxError)
  deriving DecidableEq

namespace Segment

def statement? : Segment → Option Stmt
  | statement s => some s
  | error _ => none

def error? : Segment → Option SyntaxError
  | statement _ => none
  | error e => some e

/-- The tokens from the next boundary on; `before` is the kind of the token in
front of them. -/
def skip (before : Kind) : List Token → List Token
  | [] => []
  | t :: ts =>
      if before = .semicolon ∨ t.kind.beginsStatement then t :: ts else skip t.kind ts

/-- Where reading goes on after the statement at `start` stopped in front of
`rest`. At least one token is given up. -/
def resume (start rest : List Token) : List Token :=
  match start.drop (start.length - rest.length - 1) with
  | [] => []
  | t :: ts => skip t.kind ts

/-- The first `n` segments of some tokens, read in `m`. -/
def cutTelling {m : Type → Type} [Monad m] (tell : Halt → m Unit) (stop : Token) :
    Nat → List Token → m (List Segment)
  | 0, _ => return []
  | _ + 1, [] => return []
  | n + 1, t :: ts => do
      match ← (Reading.statement tell (t :: ts)).run with
      | .ok (s, rest) => return statement s :: (← cutTelling tell stop n rest)
      | .error h =>
          return error (h.error stop) :: (← cutTelling tell stop n (resume (t :: ts) h.rest))

/-- The first `n` segments of some tokens. -/
def cut (stop : Token) (n : Nat) (ts : List Token) : List Segment :=
  (cutTelling silent stop n ts).run

end Segment

/-- The statements and the errors of a program, each in order. -/
structure Program where
  statements : List Stmt
  errors : List SyntaxError
  deriving DecidableEq

namespace Program

def ofSegments (ss : List Segment) : Program :=
  ⟨ss.filterMap Segment.statement?, ss.filterMap Segment.error?⟩

/-- Reads a whole program. There are at most as many segments as tokens. -/
def ofStream (s : TokenStream) : Program :=
  ofSegments (Segment.cut s.stop s.body.length s.body)

end Program

/-- A place in a token stream from which it can be read. -/
structure Cursor where
  stream : TokenStream
  pos : Nat

namespace Cursor

/-- The cursor at the beginning of a stream. -/
def start (s : TokenStream) : Cursor := ⟨s, 0⟩

/-- The stream from the cursor on. -/
def ahead (c : Cursor) : TokenStream :=
  ⟨c.stream.body.drop c.pos, c.stream.stop⟩

/-- The cursor in front of `rest`, the last tokens of the stream. -/
def before (c : Cursor) (rest : List Token) : Cursor :=
  ⟨c.stream, c.stream.body.length - rest.length⟩

/-- Reads the rest of the stream as a program. -/
def parse (c : Cursor) : Program × Cursor :=
  (Program.ofStream c.ahead, c.before [])

/-- Reads the rest of the stream as one expression. After an error the cursor
stands where the error was found. -/
def parseExpression (c : Cursor) : Except SyntaxError Expr × Cursor :=
  match Expr.readAll c.ahead.body with
  | .ok e => (.ok e, c.before [])
  | .error h => (.error (h.error c.stream.stop), c.before h.rest)

def rewind (c : Cursor) : Cursor := start c.stream

end Cursor

end Lox

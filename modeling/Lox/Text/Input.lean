/-!
# Text from outside

Text read from outside is made of bytes, and may end its lines with a line feed, a
carriage return or both. Inside, a line feed alone ends a line.
-/
namespace Lox.Text.Newline

/-- Writes every line end as one line feed. -/
def normalize : List Char → List Char
  | [] => []
  | '\r' :: '\n' :: cs => '\n' :: normalize cs
  | '\r' :: cs => '\n' :: normalize cs
  | c :: cs => c :: normalize cs

/-- The lines of a text; a line feed at the very end does not begin another. -/
def lines : List Char → List (List Char)
  | [] => []
  | '\n' :: cs => [] :: lines cs
  | c :: cs =>
      match lines cs with
      | l :: ls => (c :: l) :: ls
      | [] => [[c]]

end Lox.Text.Newline

/-!
## Strict UTF-8

Bytes are decoded one at a time. The first byte of a character fixes how many
more are needed and which values the second may have, so that overlong forms,
surrogates and numbers above the last code point are refused at that second
byte. An error names the bytes read so far for the character that failed.
-/
namespace Lox.Text.Utf8

inductive Reason where
  | invalidStart
  | invalidContinuation
  | unexpectedEnd
  deriving DecidableEq, Repr

namespace Reason

def message : Reason → String
  | invalidStart => "invalid start byte"
  | invalidContinuation => "invalid continuation byte"
  | unexpectedEnd => "unexpected end of data"

end Reason

/-- The bytes that could not be decoded: the position of the first of them, its
value, how many they are, and what is wrong. -/
structure Error where
  start : Nat
  first : UInt8
  count : Nat
  reason : Reason
  deriving DecidableEq, Repr

/-- Two hexadecimal digits. -/
def hexByte (b : UInt8) : String :=
  String.ofList [Nat.digitChar (b.toNat / 16), Nat.digitChar (b.toNat % 16)]

namespace Error

def message (e : Error) : String :=
  let what :=
    if e.count ≤ 1 then
      "byte 0x" ++ hexByte e.first ++ " in position " ++ String.ofList (Nat.toDigits 10 e.start)
    else
      "bytes in position " ++ String.ofList (Nat.toDigits 10 e.start) ++ "-" ++
        String.ofList (Nat.toDigits 10 (e.start + e.count - 1))
  "'utf-8' codec can't decode " ++ what ++ ": " ++ e.reason.message

end Error

/-- A character of which some bytes have been read. -/
structure Pending where
  start : Nat
  first : UInt8
  /-- How many bytes have been read. -/
  count : Nat
  /-- The bits collected from them. -/
  bits : Nat
  /-- How many bytes are still needed, less one. -/
  more : Nat
  /-- The least and the greatest next byte. -/
  low : UInt8
  high : UInt8
  deriving DecidableEq, Repr

/-- The state after the first byte of a character of several bytes. -/
def lead? (pos : Nat) (b : UInt8) : Option Pending :=
  if b < 0xc2 then none
  else if b < 0xe0 then some ⟨pos, b, 1, b.toNat - 0xc0, 0, 0x80, 0xbf⟩
  else if b < 0xf0 then
    some ⟨pos, b, 1, b.toNat - 0xe0, 1, if b = 0xe0 then 0xa0 else 0x80,
      if b = 0xed then 0x9f else 0xbf⟩
  else if b < 0xf5 then
    some ⟨pos, b, 1, b.toNat - 0xf0, 2, if b = 0xf0 then 0x90 else 0x80,
      if b = 0xf4 then 0x8f else 0xbf⟩
  else none

/-- The error of a character that breaks off. -/
def Pending.fail (p : Pending) (reason : Reason) : Error :=
  ⟨p.start, p.first, p.count, reason⟩

/-- Decodes bytes from position `pos` on; `found` holds the characters so far,
last one first. -/
def decodeFrom (pos : Nat) (found : List Char) :
    Option Pending → List UInt8 → Except Error (List Char)
  | none, [] => .ok found.reverse
  | some p, [] => .error (p.fail .unexpectedEnd)
  | none, b :: bs =>
      if b < 0x80 then decodeFrom (pos + 1) (Char.ofNat b.toNat :: found) none bs
      else
        match lead? pos b with
        | some p => decodeFrom (pos + 1) found (some p) bs
        | none => .error ⟨pos, b, 1, .invalidStart⟩
  | some p, b :: bs =>
      if p.low ≤ b ∧ b ≤ p.high then
        let bits := p.bits * 64 + (b.toNat - 0x80)
        match p.more with
        | 0 => decodeFrom (pos + 1) (Char.ofNat bits :: found) none bs
        | more + 1 =>
            decodeFrom (pos + 1) found
              (some ⟨p.start, p.first, p.count + 1, bits, more, 0x80, 0xbf⟩) bs
      else .error (p.fail .invalidContinuation)

/-- The characters that some bytes encode. -/
def decode (bytes : List UInt8) : Except Error (List Char) :=
  decodeFrom 0 [] none bytes

end Lox.Text.Utf8

import SealedStream.Bytes

/-!
Hexadecimal text.

Writing uses lower-case digits; reading takes both cases and names the first byte that is no
digit. A text of odd length is refused before any digit is looked at.
-/

namespace SealedStream.Hex

/-- Why a text is not hexadecimal. -/
inductive Flaw where
  | oddLength
  | badDigit (byte : UInt8) (position : Nat)
  deriving DecidableEq, Repr

def digit (n : Nat) : Char := if n < 10 then Char.ofNat (48 + n) else Char.ofNat (87 + n)

def byteDigits (b : UInt8) : List Char := [digit (b.toNat / 16), digit (b.toNat % 16)]

def encode (bs : Bytes) : String := String.ofList (bs.flatMap byteDigits)

/-- The value of an ASCII hexadecimal digit. -/
def digitValue (b : UInt8) : Option Nat :=
  let n := b.toNat
  if 48 ≤ n ∧ n ≤ 57 then some (n - 48)
  else if 97 ≤ n ∧ n ≤ 102 then some (n - 87)
  else if 65 ≤ n ∧ n ≤ 70 then some (n - 55)
  else none

def digitAt (position : Nat) (b : UInt8) : Except Flaw Nat :=
  match digitValue b with
  | some v => .ok v
  | none => .error (.badDigit b position)

def decodeFrom (position : Nat) : Bytes → Except Flaw Bytes
  | [] => .ok []
  | [_] => .error .oddLength
  | a :: b :: rest => do
    let hi ← digitAt position a
    let lo ← digitAt (position + 1) b
    let tail ← decodeFrom (position + 2) rest
    return UInt8.ofNat (16 * hi + lo) :: tail

/-- The bytes that a text of hexadecimal digits denotes; positions count UTF-8 bytes. -/
def decode (s : String) : Except Flaw Bytes :=
  let digits := s.toUTF8.toList
  if digits.length % 2 = 1 then .error .oddLength else decodeFrom 0 digits

/-- The digits of `n` in base 16, without leading zeros. -/
def natDigits (n : Nat) : String := String.ofList (Nat.toDigits 16 n)

/-- A Latin-1 character between single quotes: control characters, blanks other than the space and
the soft hyphen are written by number. -/
def quoteLatin1 (b : UInt8) : String :=
  let n := b.toNat
  let body :=
    if n = 0 then "\\0"
    else if n = 9 then "\\t"
    else if n = 10 then "\\n"
    else if n = 13 then "\\r"
    else if n = 39 then "\\'"
    else if n = 92 then "\\\\"
    else if n < 32 ∨ (127 ≤ n ∧ n ≤ 160) ∨ n = 173 then "\\u\x7b" ++ natDigits n ++ "\x7d"
    else String.singleton (Char.ofNat n)
  "'" ++ body ++ "'"

def Flaw.message : Flaw → String
  | .oddLength => "Odd number of digits"
  | .badDigit b position => s!"Invalid character {quoteLatin1 b} at position {position}"

end SealedStream.Hex

import BitcoinSpend.Bytes.Basic

namespace BitcoinSpend

/-- Why a text is no hexadecimal byte string. -/
inductive HexError where
  | oddLength
  | wrongLength
  | badDigit (byte : UInt8) (position : Nat)
deriving DecidableEq, Repr

namespace Hex

def digit (n : UInt8) : Char :=
  Char.ofNat (if n < 10 then 48 + n.toNat else 87 + n.toNat)

def digits (b : UInt8) : List Char :=
  [digit (b / 16), digit (b % 16)]

def encode (bs : Bytes) : String :=
  String.ofList (bs.flatMap digits)

/-- The value of a hexadecimal digit, given as an ASCII byte. -/
def value? (c : UInt8) : Option UInt8 :=
  if 48 ≤ c ∧ c ≤ 57 then some (c - 48)
  else if 97 ≤ c ∧ c ≤ 102 then some (c - 87)
  else if 65 ≤ c ∧ c ≤ 70 then some (c - 55)
  else none

def digitAt (position : Nat) (c : UInt8) : Except HexError UInt8 :=
  match value? c with
  | some v => .ok v
  | none => .error (.badDigit c position)

/-- Reads the digits pairwise, from a given position on. -/
def decodePairs (position : Nat) : Bytes → Except HexError Bytes
  | high :: low :: rest => do
    let h ← digitAt position high
    let l ← digitAt (position + 1) low
    let bs ← decodePairs (position + 2) rest
    return (16 * h + l) :: bs
  | _ => .ok []

/-- Reads a text as bytes. Positions count the bytes of the text, and an odd count is the first
fault that is looked for. -/
def decode (text : String) : Except HexError Bytes :=
  let cs := text.toUTF8.toList
  if cs.length % 2 = 1 then .error .oddLength else decodePairs 0 cs

/-- Reads a text as exactly `n` bytes. -/
def decodeFixed (n : Nat) (text : String) : Except HexError (FixedBytes n) :=
  let cs := text.toUTF8.toList
  if cs.length % 2 = 1 then .error .oddLength
  else if cs.length ≠ 2 * n then .error .wrongLength
  else do
    let bs ← decodePairs 0 cs
    match FixedBytes.ofBytes? n bs with
    | some b => .ok b
    | none => .error .wrongLength

/-- A number in lower case hexadecimal digits without leading zeros. -/
def ofNat (n : Nat) : String :=
  String.ofList (Nat.toDigits 16 n)

/-- A character of the first 256 code points in single quotes, escaped where it is a quote, a
backslash or not printable. -/
def quoted (b : UInt8) : String :=
  let inner :=
    match b.toNat with
    | 0 => "\\0"
    | 9 => "\\t"
    | 10 => "\\n"
    | 13 => "\\r"
    | 39 => "\\'"
    | 92 => "\\\\"
    | n =>
      if n < 32 ∨ (127 ≤ n ∧ n ≤ 160) ∨ n = 173 then "\\u\x7b" ++ ofNat n ++ "\x7d"
      else (Char.ofNat n).toString
  "'" ++ inner ++ "'"

end Hex

def HexError.message : HexError → String
  | .oddLength => "Odd number of digits"
  | .wrongLength => "Invalid string length"
  | .badDigit byte position => s!"Invalid character {Hex.quoted byte} at position {position}"

end BitcoinSpend

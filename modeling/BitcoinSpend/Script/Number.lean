import BitcoinSpend.Bytes.Basic

namespace BitcoinSpend

inductive NumberError where
  | overflow
  | notMinimal
deriving DecidableEq, Repr

def NumberError.message : NumberError → String
  | .overflow => "script number overflow"
  | .notMinimal => "non-minimally encoded script number"

namespace Number

/-- The longest operand of an arithmetic opcode. -/
def operandSize : Nat := 4

/-- The longest operand of a lock time opcode. -/
def lockTimeSize : Nat := 5

/-- The longest string that is read as a number at all. -/
def wordSize : Nat := 8

/-- The base 256 digits of a number, least significant first, without leading zeros. -/
def magnitude (n : Nat) : Bytes :=
  if n = 0 then [] else UInt8.ofNat n :: magnitude (n / 256)
termination_by n
decreasing_by omega

/-- Puts a sign into the top bit of the last digit, or behind it if that bit is taken. -/
def withSign (negative : Bool) : Bytes → Bytes
  | [] => []
  | [b] =>
    if b < 0x80 then [if negative then b ||| 0x80 else b]
    else [b, if negative then 0x80 else 0x00]
  | b :: bs => b :: withSign negative bs

/-- The shortest string with a given value. -/
def encode (n : Int) : Bytes :=
  withSign (n < 0) (magnitude n.natAbs)

/-- Puts bytes into a word, the first one at byte `i` and each next one above it. -/
def orBytes (word : UInt64) (i : Nat) : Bytes → UInt64
  | [] => word
  | b :: bs => orBytes (word ||| b.toUInt64 <<< UInt64.ofNat (8 * i)) (i + 1) bs

/-- The sign bit of the last of so many bytes in a word. -/
def signBit (length : Nat) : UInt64 :=
  0x80 <<< UInt64.ofNat (8 * (length - 1))

/-- The bytes as a signed word. A sign in the last one is taken out before the word is negated. -/
def readWord (bs : Bytes) : Int64 :=
  match bs.getLast? with
  | none => 0
  | some last =>
    let word := orBytes 0 0 bs
    if last &&& 0x80 != 0 then -(word &&& ~~~signBit bs.length).toInt64 else word.toInt64

/-- Tells that no shorter string has the same value: the last byte holds more than a sign, or the
byte before it leaves no room for one. -/
def isMinimal (bs : Bytes) : Bool :=
  match bs.reverse with
  | [] => true
  | last :: rest =>
    last &&& 0x7f != 0 ||
      match rest with
      | [] => false
      | before :: _ => before &&& 0x80 != 0

/-- Reads a number of at most `size` bytes. -/
def decode (minimal : Bool) (size : Nat) (bs : Bytes) : Except NumberError Int :=
  if bs.length > size then .error .overflow
  else if minimal && !isMinimal bs then .error .notMinimal
  else .ok (readWord bs).toInt

/-- A result of arithmetic, which must fit a signed word of 64 bits. -/
def checked (n : Int) : Except NumberError Int :=
  if Int64.minValue.toInt ≤ n ∧ n ≤ Int64.maxValue.toInt then .ok n else .error .overflow

/-- A string is false when it stands for zero, with either sign. -/
def isTrue : Bytes → Bool
  | [] => false
  | [last] => last != 0 && last != 0x80
  | b :: bs => b != 0 || isTrue bs

end Number

end BitcoinSpend

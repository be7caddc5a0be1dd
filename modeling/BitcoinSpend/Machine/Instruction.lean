import BitcoinSpend.Hash.Algorithm
import BitcoinSpend.Machine.Failure

namespace BitcoinSpend

inductive UnaryOp where
  | increment
  | decrement
  | negate
  | absolute
  | isZero
  | isNonzero
deriving DecidableEq, Repr

inductive BinaryOp where
  | add
  | subtract
  | both
  | either
  | equal
  | notEqual
  | less
  | greater
  | lessOrEqual
  | greaterOrEqual
  | minimum
  | maximum
deriving DecidableEq, Repr

namespace Number

/-- A truth value as a number. -/
def ofBool (b : Bool) : Int :=
  if b then 1 else 0

end Number

def UnaryOp.apply : UnaryOp → Int → Except NumberError Int
  | .increment, n => Number.checked (n + 1)
  | .decrement, n => Number.checked (n - 1)
  | .negate, n => Number.checked (-n)
  | .absolute, n => Number.checked n.natAbs
  | .isZero, n => .ok (Number.ofBool (n = 0))
  | .isNonzero, n => .ok (Number.ofBool (n ≠ 0))

def BinaryOp.apply : BinaryOp → Int → Int → Except NumberError Int
  | .add, a, b => Number.checked (a + b)
  | .subtract, a, b => Number.checked (a - b)
  | .both, a, b => .ok (Number.ofBool (a ≠ 0 ∧ b ≠ 0))
  | .either, a, b => .ok (Number.ofBool (a ≠ 0 ∨ b ≠ 0))
  | .equal, a, b => .ok (Number.ofBool (a = b))
  | .notEqual, a, b => .ok (Number.ofBool (a ≠ b))
  | .less, a, b => .ok (Number.ofBool (a < b))
  | .greater, a, b => .ok (Number.ofBool (a > b))
  | .lessOrEqual, a, b => .ok (Number.ofBool (a ≤ b))
  | .greaterOrEqual, a, b => .ok (Number.ofBool (a ≥ b))
  | .minimum, a, b => .ok (min a b)
  | .maximum, a, b => .ok (max a b)

/-- Instructions that need only the main stack. -/
inductive StackInstruction where
  | verify
  | drop (n : Nat)
  | dup (n : Nat)
  | dupBelow (n : Nat)
  | rot (n : Nat)
  | swap (n : Nat)
  | ifDup
  | depth
  | nip
  | pick
  | roll
  | tuck
  | size
  | equal
  | equalVerify
  | unary (op : UnaryOp)
  | binary (op : BinaryOp)
  | numEqualVerify
  | within
  | hash (algorithm : HashAlgorithm)
deriving DecidableEq, Repr

inductive Instruction where
  | constant (n : Int)
  | nop
  | conditional (negated : Bool)
  | toAlt
  | fromAlt
  | stack (instruction : StackInstruction)
  | checkSig
  | checkSigVerify
  | checkMultiSig
  | checkMultiSigVerify
  | checkLockTime
  | checkSequence
  | invalid (reason : Failure)
deriving DecidableEq, Repr

/-- The instruction of an opcode. An alternative or an end of a conditional is taken away with the
opcode that opens it, so one that is left to run is misplaced. -/
def Opcode.instruction (op : Opcode) : Instruction :=
  match op.byte.toNat with
  | 0x00 => .constant 0
  | 0x4f => .constant (-1)
  | 0x61 => .nop
  | 0x63 => .conditional false
  | 0x64 => .conditional true
  | 0x67 => .invalid .unbalancedConditional
  | 0x68 => .invalid .unbalancedConditional
  | 0x69 => .stack .verify
  | 0x6a => .invalid .returned
  | 0x6b => .toAlt
  | 0x6c => .fromAlt
  | 0x6d => .stack (.drop 2)
  | 0x6e => .stack (.dup 2)
  | 0x6f => .stack (.dup 3)
  | 0x70 => .stack (.dupBelow 2)
  | 0x71 => .stack (.rot 2)
  | 0x72 => .stack (.swap 2)
  | 0x73 => .stack .ifDup
  | 0x74 => .stack .depth
  | 0x75 => .stack (.drop 1)
  | 0x76 => .stack (.dup 1)
  | 0x77 => .stack .nip
  | 0x78 => .stack (.dupBelow 1)
  | 0x79 => .stack .pick
  | 0x7a => .stack .roll
  | 0x7b => .stack (.rot 1)
  | 0x7c => .stack (.swap 1)
  | 0x7d => .stack .tuck
  | 0x7e => .invalid (.disabledOpcode op)
  | 0x7f => .invalid (.disabledOpcode op)
  | 0x80 => .invalid (.disabledOpcode op)
  | 0x81 => .invalid (.disabledOpcode op)
  | 0x82 => .stack .size
  | 0x83 => .invalid (.disabledOpcode op)
  | 0x84 => .invalid (.disabledOpcode op)
  | 0x85 => .invalid (.disabledOpcode op)
  | 0x86 => .invalid (.disabledOpcode op)
  | 0x87 => .stack .equal
  | 0x88 => .stack .equalVerify
  | 0x8b => .stack (.unary .increment)
  | 0x8c => .stack (.unary .decrement)
  | 0x8d => .invalid (.disabledOpcode op)
  | 0x8e => .invalid (.disabledOpcode op)
  | 0x8f => .stack (.unary .negate)
  | 0x90 => .stack (.unary .absolute)
  | 0x91 => .stack (.unary .isZero)
  | 0x92 => .stack (.unary .isNonzero)
  | 0x93 => .stack (.binary .add)
  | 0x94 => .stack (.binary .subtract)
  | 0x95 => .invalid (.disabledOpcode op)
  | 0x96 => .invalid (.disabledOpcode op)
  | 0x97 => .invalid (.disabledOpcode op)
  | 0x98 => .invalid (.disabledOpcode op)
  | 0x99 => .invalid (.disabledOpcode op)
  | 0x9a => .stack (.binary .both)
  | 0x9b => .stack (.binary .either)
  | 0x9c => .stack (.binary .equal)
  | 0x9d => .stack .numEqualVerify
  | 0x9e => .stack (.binary .notEqual)
  | 0x9f => .stack (.binary .less)
  | 0xa0 => .stack (.binary .greater)
  | 0xa1 => .stack (.binary .lessOrEqual)
  | 0xa2 => .stack (.binary .greaterOrEqual)
  | 0xa3 => .stack (.binary .minimum)
  | 0xa4 => .stack (.binary .maximum)
  | 0xa5 => .stack .within
  | 0xa6 => .stack (.hash .ripemd160)
  | 0xa7 => .stack (.hash .sha1)
  | 0xa8 => .stack (.hash .sha256)
  | 0xa9 => .stack (.hash .hash160)
  | 0xaa => .stack (.hash .hash256)
  | 0xab => .nop
  | 0xac => .checkSig
  | 0xad => .checkSigVerify
  | 0xae => .checkMultiSig
  | 0xaf => .checkMultiSigVerify
  | 0xb0 => .nop
  | 0xb1 => .checkLockTime
  | 0xb2 => .checkSequence
  | n =>
    if 0x51 ≤ n ∧ n ≤ 0x60 then .constant (n - 0x50)
    else if 0xb3 ≤ n ∧ n ≤ 0xb9 then .nop
    else .invalid (.badOpcode op)

end BitcoinSpend

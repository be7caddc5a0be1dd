import BitcoinSpend.Machine.Instruction

namespace BitcoinSpend

namespace StackInstruction

/-- Takes the top element off and fails in the name of an opcode unless it is true. -/
def demandTrue (op : Opcode) : StackM Failure Unit := do
  if !(← Stack.popBool) then throw (.verify op)

/-- Takes a number off that names a position counted from the top. -/
def popPosition : StackM StackError Nat := do
  let n ← Stack.popNumber
  if n < 0 then throw .invalidOperation
  return n.toNat

def unaryNumber (f : Int → Except NumberError Int) : StackM Failure Unit := do
  let n ← Stack.popNumber
  let r ← ofExcept ((f n).mapError Failure.number)
  Stack.pushNumber r

def binaryNumber (f : Int → Int → Except NumberError Int) : StackM Failure Unit := do
  let b ← Stack.popNumber
  let a ← Stack.popNumber
  let r ← ofExcept ((f a b).mapError Failure.number)
  Stack.pushNumber r

def compareTop : StackM Failure Unit := do
  let a ← Stack.pop
  let b ← Stack.pop
  Stack.pushBool (a = b)

def run : StackInstruction → StackM Failure Unit
  | verify => demandTrue .verify
  | drop n => Stack.drop n
  | dup n => Stack.dup n
  | dupBelow n => Stack.dupBelow n
  | rot n => Stack.rot n
  | swap n => Stack.swap n
  | ifDup => do
    if ← Stack.peekBool then Stack.dup 1
  | depth => do
    let s ← get
    Stack.pushNumber s.length
  | nip => Stack.nip
  | pick => do
    let i ← popPosition
    let x ← Stack.top i
    Stack.push x
  | roll => do
    let i ← popPosition
    let x ← Stack.remove i
    Stack.push x
  | tuck => Stack.tuck
  | size => do
    let x ← Stack.top 0
    Stack.pushNumber x.length
  | equal => compareTop
  | equalVerify => do
    compareTop
    demandTrue .equalVerify
  | unary op => unaryNumber op.apply
  | binary op => binaryNumber op.apply
  | numEqualVerify => do
    binaryNumber BinaryOp.equal.apply
    demandTrue .numEqualVerify
  | within => do
    let upper ← Stack.popNumber
    let lower ← Stack.popNumber
    let x ← Stack.popNumber
    Stack.pushBool (lower ≤ x ∧ x < upper)
  | hash algorithm => do
    let x ← Stack.pop
    Stack.push (algorithm.digest x)

end StackInstruction

end BitcoinSpend

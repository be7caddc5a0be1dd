import BitcoinSpend.Machine.Failure

namespace BitcoinSpend

/-- What the lock time opcodes compare with: fields of the spending transaction and of its input. -/
structure LockTime where
  version : Int32
  lockTime : UInt32
  sequence : UInt32
deriving DecidableEq, Repr

namespace LockTime

/-- Smaller lock times are heights, others are times. -/
def threshold : Int := 500000000

/-- The sequence of a final input, which switches the lock time of its transaction off. -/
def finalSequence : UInt32 := 0xffffffff

/-- The bit that switches relative lock times off. -/
def disableBit : Nat := 31

/-- The bits that hold the kind and the amount of a relative lock time. -/
def relativeMask : Nat := 0x0040ffff

/-- From here on a masked relative lock time counts time units. -/
def relativeThreshold : Nat := 0x00400000

/-- A height or time is reached when the transaction's own is of the same kind and no smaller, and
the input is not final. -/
def reached (ctx : LockTime) (demand : Int) : Bool :=
  let own : Int := ctx.lockTime.toNat
  decide (demand < threshold) == decide (own < threshold) && decide (demand ≤ own) &&
    ctx.sequence != finalSequence

/-- An age is reached when the transaction has relative lock times, the input has one of the same
kind, and that one is no smaller. -/
def aged (ctx : LockTime) (demand : Nat) : Bool :=
  let own := ctx.sequence.toNat
  let required := demand &&& relativeMask
  let actual := own &&& relativeMask
  decide (2 ≤ ctx.version) && !own.testBit disableBit &&
    decide (required < relativeThreshold) == decide (actual < relativeThreshold) &&
    decide (required ≤ actual)

/-- Reads the demand on top of the stack, which stays there. -/
def peekDemand : StackM Failure Int := do
  let n ← Stack.peekNumber Number.lockTimeSize
  if n < 0 then throw .negativeLockTime
  return n

/-- Demands that a height or time is reached. -/
def checkReached (ctx : LockTime) : StackM Failure Unit := do
  let demand ← peekDemand
  if !ctx.reached demand then throw .unsatisfiedLockTime

/-- Demands that the input has aged enough, unless the demand is switched off. -/
def checkAged (ctx : LockTime) : StackM Failure Unit := do
  let demand ← peekDemand
  if demand.toNat.testBit disableBit then return
  if !ctx.aged demand.toNat then throw .unsatisfiedLockTime

end LockTime

end BitcoinSpend

import BitcoinSpend.Machine.Stack
import BitcoinSpend.Script.Opcode

namespace BitcoinSpend

inductive Failure where
  | stack (cause : StackError)
  | number (cause : NumberError)
  | verify (op : Opcode)
  | returned
  | disabledOpcode (op : Opcode)
  | badOpcode (op : Opcode)
  | unbalancedConditional
  | invalidAltStackOperation
  | stackSize
  | keyCount (n : Int)
  | signatureCount (n : Int)
  | negativeLockTime
  | unsatisfiedLockTime
  | scriptHashMismatch
  | witnessEmpty
  | witnessProgramMismatch
deriving DecidableEq, Repr

def Failure.message : Failure → String
  | .stack cause => cause.message
  | .number cause => cause.message
  | .verify op => s!"{op.name} failed"
  | .returned => "OP_RETURN executed"
  | .disabledOpcode op => s!"attempt to execute disabled opcode {op.name}"
  | .badOpcode op => s!"{op.name} is reserved or unassigned"
  | .unbalancedConditional => "unbalanced conditional"
  | .invalidAltStackOperation => "invalid alt stack operation"
  | .stackSize => "exceeds stack limit (1000)"
  | .keyCount n => s!"invalid number of pubkeys {n}"
  | .signatureCount n => s!"invalid number of signatures {n}"
  | .negativeLockTime => "negative lock time"
  | .unsatisfiedLockTime => "required lock time has not been reached"
  | .scriptHashMismatch => "redeem script does not match the script hash"
  | .witnessEmpty => "witness program witness empty"
  | .witnessProgramMismatch => "witness script does not match the witness program"

instance : MonadLift (StackM StackError) (StackM Failure) :=
  ⟨EStateM.adaptExcept .stack⟩

end BitcoinSpend

import BitcoinSpend.Machine.Conditional
import BitcoinSpend.Machine.Context
import BitcoinSpend.Machine.StackInstruction
import BitcoinSpend.Script.Template

namespace BitcoinSpend

/-- The commands left to run and the two stacks. -/
structure State where
  queue : Script
  stack : Stack
  alt : Stack
deriving DecidableEq

/-- How a run ends: with all commands run, at a command that fails, or at an embedded script that
cannot be read. -/
inductive Ending where
  | completed (stack : Stack)
  | failed (reason : Failure) (stack : Stack)
  | malformed (cause : ScriptError)
deriving DecidableEq

/-- The most elements that both stacks may hold together. -/
def maxStackSize : Nat := 1000

namespace State

/-- The state in which a script starts. -/
def ofScript (s : Script) : State :=
  ⟨s, [], []⟩

/-- Ends the run with a failure. -/
def fail (s : State) (reason : Failure) : Except Ending State :=
  .error (.failed reason s.stack)

/-- Runs a computation on the main stack. -/
def onStack (s : State) (act : StackM Failure Unit) : Except Ending State :=
  match act s.stack with
  | .ok _ stack => .ok { s with stack }
  | .error reason stack => .error (.failed reason stack)

/-- A stack of just an empty string and a program is replaced: the queue goes on with the witness
and the script that the program stands for. -/
def expandProgram (ctx : Context) (s : State) : Except Ending State :=
  match s.stack with
  | [program, []] =>
    if h : program.length = 20 then
      let script := ctx.witness.map .data ++ Script.payToKeyHash ⟨program, h⟩
      .ok { s with queue := s.queue ++ script, stack := [] }
    else if program.length = 32 then
      match ctx.witness.getLast? with
      | none => .error (.failed .witnessEmpty [])
      | some body =>
        if (Sha256.digest body).bytes ≠ program then .error (.failed .witnessProgramMismatch [])
        else
          match Script.ofBody body with
          | .error e => .error (.malformed e)
          | .ok script =>
            let items := ctx.witness.dropLast.map .data
            .ok { s with queue := s.queue ++ (items ++ script), stack := [] }
    else .ok s
  | _ => .ok s

/-- Pushes data. If a script hash is all that is left to run, the data is a script with that hash,
which is run in its place. -/
def pushData (ctx : Context) (bs : Bytes) (s : State) : Except Ending State :=
  match s.queue.scriptHash? with
  | none => expandProgram ctx { s with stack := bs :: s.stack }
  | some h =>
    if hash160 bs ≠ h then s.fail .scriptHashMismatch
    else
      match Script.ofBody bs with
      | .error e => .error (.malformed e)
      | .ok script => expandProgram ctx { s with queue := script }

/-- Takes a condition off the stack and keeps the branch that it chooses. -/
def runConditional (negated : Bool) (s : State) : Except Ending State :=
  match s.stack with
  | [] => s.fail (.stack .invalidOperation)
  | top :: stack =>
    match Conditional.split? s.queue with
    | none => .error (.failed .unbalancedConditional stack)
    | some c => .ok { s with queue := c.branch (Number.isTrue top != negated) ++ c.rest, stack }

/-- Moves the top element to the other stack. -/
def moveToAlt (s : State) : Except Ending State :=
  match s.stack with
  | [] => s.fail (.stack .invalidOperation)
  | x :: stack => .ok { s with stack, alt := x :: s.alt }

def moveFromAlt (s : State) : Except Ending State :=
  match s.alt with
  | [] => s.fail .invalidAltStackOperation
  | x :: alt => .ok { s with stack := x :: s.stack, alt }

/-- Leaves the answer of a check on the stack. -/
def pushAnswer (check : StackM Failure Bool) : StackM Failure Unit := do
  Stack.pushBool (← check)

/-- Fails in the name of an opcode unless a check answers true. -/
def demandAnswer (op : Opcode) (check : StackM Failure Bool) : StackM Failure Unit := do
  if !(← check) then throw (.verify op)

/-- Runs a lock time check, if the context has lock times. -/
def underLockTime (ctx : Context) (check : LockTime → StackM Failure Unit) : StackM Failure Unit :=
  match ctx.lockTime with
  | none => return
  | some lockTime => check lockTime

def runInstruction (ctx : Context) (i : Instruction) (s : State) : Except Ending State :=
  match i with
  | .constant n => s.onStack (Stack.pushNumber n)
  | .nop => .ok s
  | .conditional negated => s.runConditional negated
  | .toAlt => s.moveToAlt
  | .fromAlt => s.moveFromAlt
  | .stack i => s.onStack i.run
  | .checkSig => s.onStack (pushAnswer ctx.checkSig)
  | .checkSigVerify => s.onStack (demandAnswer .checkSigVerify ctx.checkSig)
  | .checkMultiSig => s.onStack (pushAnswer ctx.checkMultiSig)
  | .checkMultiSigVerify => s.onStack (demandAnswer .checkMultiSigVerify ctx.checkMultiSig)
  | .checkLockTime => s.onStack (underLockTime ctx LockTime.checkReached)
  | .checkSequence => s.onStack (underLockTime ctx LockTime.checkAged)
  | .invalid reason => s.fail reason

def runCommand (ctx : Context) (c : Command) (s : State) : Except Ending State :=
  match c with
  | .data bs => s.pushData ctx bs
  | .op code => s.runInstruction ctx code.instruction

/-- Fails when the stacks have grown too large. -/
def checkSize (s : State) : Except Ending State :=
  if s.stack.length + s.alt.length > maxStackSize then s.fail .stackSize else .ok s

/-- Runs the first command of the queue. -/
def step (ctx : Context) (s : State) : Except Ending State :=
  match s.queue with
  | [] => .error (.completed s.stack)
  | c :: queue => ({ s with queue }.runCommand ctx c).bind checkSize

end State

end BitcoinSpend

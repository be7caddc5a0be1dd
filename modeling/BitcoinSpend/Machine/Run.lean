import BitcoinSpend.Machine.Step

namespace BitcoinSpend

namespace State

/-- Steps at most so many times and tells how the run ended, if it did. -/
def run (ctx : Context) : Nat → State → Option Ending
  | 0, _ => none
  | steps + 1, s =>
    match s.step ctx with
    | .error ending => some ending
    | .ok t => run ctx steps t

/-- The states in which the steps of a run start. -/
def visited (ctx : Context) : Nat → State → List State
  | 0, _ => []
  | steps + 1, s =>
    match s.step ctx with
    | .error _ => [s]
    | .ok t => s :: visited ctx steps t

end State

/-- The steps that a command can lead to without a witness. A push takes one step; as a key hash it
brings five commands, and as a script at most one for each of its bytes. -/
def Command.weight : Command → Nat
  | .op _ => 1
  | .data bs => 6 * (bs.length + 1)

def Script.weight : Script → Nat
  | [] => 0
  | c :: s => c.weight + Script.weight s

/-- A script that rebuilds its own witness program may go on for ever, so that with a witness the
budget is only out of reach. -/
def Context.budget (ctx : Context) (s : Script) : Nat :=
  s.weight + 1 + if ctx.witness.isEmpty then 0 else UInt64.size

/-- Runs a script from empty stacks. -/
def Context.execute (ctx : Context) (s : Script) : Option Ending :=
  (State.ofScript s).run ctx (ctx.budget s)

inductive EvalError where
  | embeddedScript (cause : ScriptError)
  | unfinished
deriving DecidableEq, Repr

def EvalError.message : EvalError → String
  | .embeddedScript cause => s!"embedded redeem or witness script is malformed: {cause.message}"
  | .unfinished => "script did not end within its budget of steps"

/-- A script succeeds when all of it runs and leaves a true element on top. -/
def Ending.succeeds : Ending → Bool
  | .completed stack => stack.head?.any Number.isTrue
  | .failed _ _ => false
  | .malformed _ => false

/-- An embedded script that cannot be read is an error, and no answer. -/
def Ending.verdict : Ending → Except EvalError Bool
  | .malformed cause => .error (.embeddedScript cause)
  | ending => .ok ending.succeeds

def Context.evaluate (ctx : Context) (s : Script) : Except EvalError Bool :=
  match ctx.execute s with
  | some ending => ending.verdict
  | none => .error .unfinished

end BitcoinSpend

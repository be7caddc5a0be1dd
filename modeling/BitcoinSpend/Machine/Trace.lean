import BitcoinSpend.Machine.Run

namespace BitcoinSpend

inductive Event where
  | command (c : Command) (depth : Nat)
  | branch (condition : Bool) (length : Nat)
deriving DecidableEq

/-- The branch that a conditional is about to choose, with the condition it chooses by. -/
def State.choice? (s : State) (negated : Bool) : Option Event :=
  match s.stack, Conditional.split? s.queue with
  | top :: _, some c =>
    let condition := Number.isTrue top != negated
    some (.branch condition (c.branch condition).length)
  | _, _ => none

/-- The events of the step that starts in a state. -/
def State.events (s : State) : List Event :=
  match s.queue with
  | [] => []
  | c :: queue =>
    let chosen :=
      match c with
      | .op code =>
        match code.instruction with
        | .conditional negated => { s with queue }.choice? negated
        | _ => none
      | .data _ => none
    .command c s.stack.length :: chosen.toList

/-- The events of a run, in order. -/
def Context.trace (ctx : Context) (s : Script) : List Event :=
  ((State.ofScript s).visited ctx (ctx.budget s)).flatMap State.events

end BitcoinSpend

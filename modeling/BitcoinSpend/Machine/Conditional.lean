import BitcoinSpend.Script.Basic

namespace BitcoinSpend

namespace Command

def opensConditional (c : Command) : Bool :=
  c = .op .ifTrue || c = .op .ifFalse

end Command

/-- The first and the second branch of a conditional, and the commands behind it. -/
structure Conditional where
  first : Script
  second : Script
  rest : Script
deriving DecidableEq

namespace Conditional

/-- Puts a command in front of one of the branches. -/
def cons (inFirst : Bool) (c : Command) (b : Conditional) : Conditional :=
  if inFirst then { b with first := c :: b.first } else { b with second := c :: b.second }

/-- Scans to the end that matches, while `depth` inner conditionals are open. Every alternative at
depth zero changes the branch; inner conditionals go whole to the branch that holds them. -/
def scan? : (depth : Nat) → (inFirst : Bool) → Script → Option Conditional
  | _, _, [] => none
  | depth, inFirst, c :: cs =>
    if c.opensConditional then (scan? (depth + 1) inFirst cs).map (cons inFirst c)
    else if c = .op .endIf then
      match depth with
      | 0 => some ⟨[], [], cs⟩
      | depth + 1 => (scan? depth inFirst cs).map (cons inFirst c)
    else if c = .op .orElse ∧ depth = 0 then scan? 0 (!inFirst) cs
    else (scan? depth inFirst cs).map (cons inFirst c)

/-- Cuts the commands behind an opening opcode, unless no end matches it. -/
def split? (queue : Script) : Option Conditional :=
  scan? 0 true queue

/-- The branch that a condition chooses. -/
def branch (b : Conditional) (condition : Bool) : Script :=
  if condition then b.first else b.second

end Conditional

end BitcoinSpend

import BitcoinSpend.Transaction.Codec

namespace BitcoinSpend

/-- A source of transactions: it answers an id and a network with a transaction. -/
abbrev Fetcher := TxId → (testnet : Bool) → Except FetchError Transaction

namespace OutPoint

/-- The transaction that the output belongs to. -/
def source (o : OutPoint) (fetch : Fetcher) (testnet : Bool) : Except TxError Transaction :=
  (fetch o.tx testnet).mapError .fetch

def output (o : OutPoint) (fetch : Fetcher) (testnet : Bool) : Except TxError Output := do
  let tx ← o.source fetch testnet
  match tx.outputs[o.index.toNat]? with
  | some output => return output
  | none => throw (.outputIndex o.tx o.index tx.outputs.length)

end OutPoint

namespace Input

/-- The output that an input spends. -/
def spent (i : Input) (fetch : Fetcher) (testnet : Bool) : Except TxError Output :=
  i.outPoint.output fetch testnet

/-- The amount that an input spends. -/
def amount (i : Input) (fetch : Fetcher) (testnet : Bool) : Except TxError Int64 := do
  return (← i.spent fetch testnet).amount

/-- The script that locks what an input spends. -/
def locking (i : Input) (fetch : Fetcher) (testnet : Bool) : Except TxError Script := do
  return (← i.spent fetch testnet).script

end Input

/-- Amounts are signed words of 64 bits, and so must be their sums. -/
def checkedAmount (n : Int) : Except TxError Int :=
  if Int64.minValue.toInt ≤ n ∧ n ≤ Int64.maxValue.toInt then .ok n else .error .amountOverflow

namespace Transaction

def input (tx : Transaction) (index : Nat) : Except TxError Input :=
  match tx.inputs[index]? with
  | some i => .ok i
  | none => .error (.inputIndex index tx.inputs.length)

/-- Adds spent amounts to a total, which may leave the range at no point. -/
def addSpent (fetch : Fetcher) (testnet : Bool) : Int → List Input → Except TxError Int
  | total, [] => .ok total
  | total, i :: is => do
    let amount ← i.amount fetch testnet
    let total ← checkedAmount (total + amount.toInt)
    addSpent fetch testnet total is

def addOutputs : Int → List Output → Except TxError Int
  | total, [] => .ok total
  | total, o :: os => do
    let total ← checkedAmount (total + o.amount.toInt)
    addOutputs total os

/-- What the inputs spend less what the outputs hold. -/
def fee (tx : Transaction) (fetch : Fetcher) : Except TxError Int := do
  let spent ← addSpent fetch tx.testnet 0 tx.inputs
  let held ← addOutputs 0 tx.outputs
  checkedAmount (spent - held)

end Transaction

end BitcoinSpend

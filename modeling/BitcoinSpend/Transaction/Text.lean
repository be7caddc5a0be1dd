import BitcoinSpend.Transaction.Codec

namespace BitcoinSpend

def OutPoint.text (o : OutPoint) : String :=
  s!"{o.tx.text}:{o.index}"

def Output.text (o : Output) : String :=
  s!"{o.amount}:{o.script.text}"

namespace Transaction

/-- The lines of a transaction: id, version, inputs, outputs and lock time. -/
def text (tx : Transaction) : String :=
  let id :=
    match tx.id with
    | .ok id => id.text
    | .error _ => "<unserializable>"
  let head := [s!"tx: {id}", s!"version: {tx.version}", "tx_ins:"]
  let inputs := tx.inputs.map fun i => i.outPoint.text
  let outputs := tx.outputs.map Output.text
  "\n".intercalate (head ++ inputs ++ "tx_outs:" :: outputs ++ [s!"locktime: {tx.lockTime}"])

end Transaction

end BitcoinSpend

import BitcoinSpend.Transaction.Basic

namespace BitcoinSpend

namespace Transaction

/-- A coinbase has one input, which names no output. -/
def isCoinbase (tx : Transaction) : Bool :=
  match tx.inputs with
  | [input] => input.outPoint = ⟨TxId.zero, 0xffffffff⟩
  | _ => false

/-- The height that a script starts with: a push of at most eight bytes or a small number. -/
def heightOf? : Script → Option Nat
  | .data bs :: _ => if bs.length ≤ 8 then some (Bytes.toNatLE bs) else none
  | .op code :: _ =>
    if code = .zero then some 0
    else if Opcode.pushOne.byte ≤ code.byte ∧ code.byte ≤ Opcode.pushSixteen.byte then
      some (code.byte.toNat - Opcode.pushOne.byte.toNat + 1)
    else none
  | [] => none

def coinbaseHeight? (tx : Transaction) : Option Nat :=
  if tx.isCoinbase then tx.inputs.head?.bind fun input => heightOf? input.script else none

end Transaction

end BitcoinSpend

import BitcoinSpend.Script.Basic
import BitcoinSpend.Transaction.Id

namespace BitcoinSpend

/-- An output of a transaction, by its position. -/
structure OutPoint where
  tx : TxId
  index : UInt32
deriving DecidableEq

/-- An input names the output it spends. Its script and its witness unlock that output. -/
structure Input where
  outPoint : OutPoint
  script : Script
  sequence : UInt32
  witness : List Bytes
deriving DecidableEq

/-- An output holds an amount, locked by a script. -/
structure Output where
  amount : Int64
  script : Script
deriving DecidableEq

/-- A segwit transaction is written with a marker and its witnesses. -/
structure Transaction where
  version : Int32
  inputs : List Input
  outputs : List Output
  lockTime : UInt32
  segwit : Bool
  testnet : Bool
deriving DecidableEq

namespace Transaction

/-- A transaction that is segwit if one of its inputs has a witness. -/
def make (version : Int32) (inputs : List Input) (outputs : List Output) (lockTime : UInt32)
    (testnet : Bool) : Transaction :=
  { version, inputs, outputs, lockTime, testnet, segwit := inputs.any fun i => !i.witness.isEmpty }

end Transaction

end BitcoinSpend

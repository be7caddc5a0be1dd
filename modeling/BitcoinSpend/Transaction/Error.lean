import BitcoinSpend.Machine.Run
import BitcoinSpend.Transaction.Id

namespace BitcoinSpend

/-- Why bytes are no transaction, or a transaction has no bytes. -/
inductive WireError where
  | codec (cause : CodecError)
  | script (cause : ScriptError)
  | hex (cause : HexError)
  | segwitMarker (flag : UInt8)
  | trailingBytes (count : Nat)
deriving DecidableEq, Repr

/-- Why a transaction cannot be had. The causes `io` and `json` concern the place where
transactions are stored, and have no text of their own. -/
inductive FetchError where
  | notFound (id : TxId)
  | idMismatch (stored : String) (actual : TxId)
  | parse (key : String) (cause : WireError)
  | io
  | json
deriving DecidableEq

/-- Why an input cannot be judged or signed. -/
inductive TxError where
  | wire (cause : WireError)
  | eval (cause : EvalError)
  | fetch (cause : FetchError)
  | inputIndex (index count : Nat)
  | outputIndex (id : TxId) (index : UInt32) (count : Nat)
  | embeddedScript
  | amountOverflow
  | unsupportedSigning (locking : Template)
deriving DecidableEq

/-- A byte as two hexadecimal digits behind their mark. -/
def Hex.marked (b : UInt8) : String :=
  "0x" ++ Hex.encode [b]

def WireError.message : WireError → String
  | .codec cause => s!"malformed transaction: {cause.message}"
  | .script cause => cause.message
  | .hex cause => s!"invalid hex: {cause.message}"
  | .segwitMarker flag => s!"invalid segwit marker {Hex.marked 0} and flag {Hex.marked flag}"
  | .trailingBytes count => s!"{count} bytes left after the transaction"

/-- The text of an error, if it has one. -/
def FetchError.message? : FetchError → Option String
  | .notFound id => some s!"transaction {id.text} not found"
  | .idMismatch stored actual => some s!"transaction stored as {stored} has id {actual.text}"
  | .parse key cause => some s!"malformed transaction {key}: {cause.message}"
  | .io => none
  | .json => none

def TxError.message? : TxError → Option String
  | .wire cause => some cause.message
  | .eval cause => some cause.message
  | .fetch cause => cause.message?
  | .inputIndex index count =>
    some s!"input index {index} out of range, transaction has {count} inputs"
  | .outputIndex id index count =>
    some s!"output {id.text}:{index} does not exist, transaction has {count} outputs"
  | .embeddedScript => some "redeem or witness script is missing or malformed"
  | .amountOverflow => some "transaction amounts overflow"
  | .unsupportedSigning locking => some s!"signing {locking.name} inputs is not supported"

end BitcoinSpend

import BitcoinSpend.Curve.Error
import BitcoinSpend.Transaction.Error

namespace BitcoinSpend

inductive TaskError where
  | tx (cause : TxError)
  | script (cause : ScriptError)
  | cache (cause : FetchError)
  | curve (cause : CurveError)
  | hex (cause : HexError)
  | logFilter
deriving DecidableEq

/-- The text of an error, if it has one. -/
def TaskError.message? : TaskError → Option String
  | .tx cause => cause.message?
  | .script cause => some s!"invalid script: {cause.message}"
  | .cache cause => cause.message?.map fun m => s!"transaction cache: {m}"
  | .curve cause => some cause.message
  | .hex cause => some s!"invalid hex: {cause.message}"
  | .logFilter => none

end BitcoinSpend

namespace BitcoinSpend

inductive CurveError where
  | invalidPoint
  | invalidSignature
  | invalidSecret
deriving DecidableEq, Repr

def CurveError.message : CurveError → String
  | .invalidPoint => "invalid SEC public key: malformed public key"
  | .invalidSignature => "invalid DER signature: malformed signature"
  | .invalidSecret => "invalid secret key: malformed or out-of-range secret key"

end BitcoinSpend

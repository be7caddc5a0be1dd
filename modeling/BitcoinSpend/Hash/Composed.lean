import BitcoinSpend.Hash.Sha256
import BitcoinSpend.Hash.Ripemd160

namespace BitcoinSpend

/-- RIPEMD-160 of SHA-256. -/
def hash160 (message : Bytes) : FixedBytes 20 :=
  Ripemd160.digest (Sha256.digest message).bytes

/-- SHA-256 of SHA-256. -/
def hash256 (message : Bytes) : FixedBytes 32 :=
  Sha256.digest (Sha256.digest message).bytes

end BitcoinSpend

import BitcoinSpend.Hash.Composed
import BitcoinSpend.Hash.Sha1

namespace BitcoinSpend

inductive HashAlgorithm where
  | ripemd160
  | sha1
  | sha256
  | hash160
  | hash256
deriving DecidableEq, Repr

def HashAlgorithm.digest : HashAlgorithm → Bytes → Bytes
  | .ripemd160, bs => (Ripemd160.digest bs).bytes
  | .sha1, bs => (Sha1.digest bs).bytes
  | .sha256, bs => (Sha256.digest bs).bytes
  | .hash160, bs => (BitcoinSpend.hash160 bs).bytes
  | .hash256, bs => (BitcoinSpend.hash256 bs).bytes

end BitcoinSpend

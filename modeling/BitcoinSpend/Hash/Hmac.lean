import BitcoinSpend.Hash.Sha256

namespace BitcoinSpend

namespace Hmac

/-- The key brought to the length of a block: hashed if it is longer, then filled up with zeros. -/
def blockKey (key : Bytes) : Bytes :=
  let short := if key.length > 64 then (Sha256.digest key).bytes else key
  short ++ List.replicate (64 - short.length) 0

def sha256 (key message : Bytes) : FixedBytes 32 :=
  let k := blockKey key
  let inner := Sha256.digest (k.map (· ^^^ 0x36) ++ message)
  Sha256.digest (k.map (· ^^^ 0x5c) ++ inner.bytes)

end Hmac

end BitcoinSpend

import BitcoinSpend.Bytes.Basic

namespace BitcoinSpend

/-- A 32 byte message digest. -/
abbrev Digest := FixedBytes 32

/-- Public points, signatures and secrets, with their encodings. A signature is encoded without
the byte that names its hash type. -/
structure SignatureScheme where
  Point : Type
  Signature : Type
  Secret : Type
  parsePoint : Bytes → Option Point
  parseSignature : Bytes → Option Signature
  verify : Point → Digest → Signature → Bool
  sign : Secret → Digest → Signature
  publicKey : Secret → Point
  encodeSignature : Signature → Bytes
  encodePoint : (compressed : Bool) → Point → Bytes

end BitcoinSpend

import BitcoinSpend.Curve.Der
import BitcoinSpend.Curve.PointEncoding
import BitcoinSpend.Curve.Scheme
import BitcoinSpend.Hash.Hmac

namespace BitcoinSpend

namespace Secp256k1

/-- A scalar that is neither zero nor too large. -/
structure Secret where
  value : Nat
  pos : 0 < value
  lt_order : value < order

def Secret.ofNat? (n : Nat) : Option Secret :=
  if h : 0 < n ∧ n < order then some ⟨n, h.1, h.2⟩ else none

def Secret.ofBytes? (bs : Bytes) : Option Secret :=
  if bs.length = 32 then Secret.ofNat? (Bytes.toNatBE bs) else none

def Secret.bytes (secret : Secret) : FixedBytes 32 :=
  ⟨Bytes.ofNatBE 32 secret.value, Bytes.length_ofNatBE 32 secret.value⟩

/-- The public point of a secret, which is never at infinity. -/
def Secret.publicKey (secret : Secret) : Point :=
  (multiple? secret.value).getD generator

def scalarOfDigest (z : Digest) : Nat :=
  Bytes.toNatBE z.bytes % order

def verify (q : Point) (z : Digest) (sig : Signature) : Bool :=
  if sig.r = 0 ∨ sig.s = 0 then false
  else
    let w := Modular.inverse order sig.s
    let u₁ := scalarOfDigest z * w % order
    let u₂ := sig.r * w % order
    match (Jacobian.combine u₁ generator.toJacobian u₂ q.toJacobian).toPoint? with
    | some p => p.x % order == sig.r
    | none => false

/-- The state of the nonce generator: a key and a value. -/
structure NonceState where
  key : Bytes
  value : Bytes

namespace NonceState

/-- Hashes extra data into the key, and the value once more. -/
def update (st : NonceState) (data : Bytes) : NonceState :=
  let key := (Hmac.sha256 st.key (st.value ++ data)).bytes
  ⟨key, (Hmac.sha256 key st.value).bytes⟩

def start (secret : Secret) (z : Digest) : NonceState :=
  let seed := secret.bytes.bytes ++ Bytes.ofNatBE 32 (scalarOfDigest z)
  ((NonceState.mk (List.replicate 32 0) (List.replicate 32 1)).update (0 :: seed)).update
    (1 :: seed)

end NonceState

/-- The signature with a given nonce, unless one of its parts vanishes. -/
def signWith? (secret : Secret) (z : Digest) (nonce : Nat) : Option Signature := do
  let k ← Secret.ofNat? nonce
  let p ← multiple? k.value
  let r := p.x % order
  let s := Modular.inverse order k.value * (scalarOfDigest z + r * secret.value) % order
  if r = 0 ∨ s = 0 then none else some (Signature.normalized ⟨r, s⟩)

/-- Tries the nonces that a generator yields, at most so many of them. -/
def signFrom (secret : Secret) (z : Digest) : Nat → NonceState → Signature
  | 0, _ => ⟨0, 0⟩
  | tries + 1, st =>
    let value := (Hmac.sha256 st.key st.value).bytes
    match signWith? secret z (Bytes.toNatBE value) with
    | some sig => sig
    | none => signFrom secret z tries (NonceState.update ⟨st.key, value⟩ [0])

/-- A nonce is refused about once in `2 ^ 127`, so that 256 tries are never used up. -/
def sign (secret : Secret) (z : Digest) : Signature :=
  signFrom secret z 256 (NonceState.start secret z)

def scheme : SignatureScheme where
  Point := Point
  Signature := Signature
  Secret := Secret
  parsePoint := Point.decode?
  parseSignature := fun bs => (Der.decodeLax? bs).map Signature.normalized
  verify := verify
  sign := sign
  publicKey := Secret.publicKey
  encodeSignature := Der.encode
  encodePoint := Point.encode

end Secp256k1

end BitcoinSpend

import BitcoinSpend.Bytes.Basic
import BitcoinSpend.Curve.Secp256k1

namespace BitcoinSpend

namespace Secp256k1

structure Signature where
  r : Nat
  s : Nat
deriving DecidableEq, Repr

namespace Der

/-- The fewest bytes that hold a number and leave the top bit clear, behind tag and length. -/
def encodeInteger (n : Nat) : Bytes :=
  let digits := (Bytes.ofNatBE 33 n).dropWhile (· == 0)
  let body :=
    match digits with
    | [] => [0]
    | b :: _ => if b < 0x80 then digits else 0 :: digits
  0x02 :: UInt8.ofNat body.length :: body

def encode (sig : Signature) : Bytes :=
  let body := encodeInteger sig.r ++ encodeInteger sig.s
  0x30 :: UInt8.ofNat body.length :: body

/-- Skips the length of the sequence, whose value does not matter. -/
def skipLength? : Bytes → Option Bytes
  | [] => none
  | b :: rest =>
    if b < 0x80 then some rest
    else
      let width := b.toNat - 0x80
      if width ≤ rest.length then some (rest.drop width) else none

/-- A length and what follows it. A long form may be padded with zeros. -/
def readLength? : Bytes → Option (Nat × Bytes)
  | [] => none
  | b :: rest =>
    if b < 0x80 then some (b.toNat, rest)
    else
      let width := b.toNat - 0x80
      if rest.length < width then none
      else
        let significant := (rest.take width).dropWhile (· == 0)
        if significant.length < 8 then some (Bytes.toNatBE significant, rest.drop width) else none

/-- The bytes of an integer and what follows them. -/
def readInteger? : Bytes → Option (Bytes × Bytes)
  | 0x02 :: rest =>
    match readLength? rest with
    | some (n, body) => if n ≤ body.length then some (body.take n, body.drop n) else none
    | none => none
  | _ => none

/-- The value of an integer as a scalar, unless it is too large for one. -/
def scalar? (bs : Bytes) : Option Nat :=
  let significant := bs.dropWhile (· == 0)
  let n := Bytes.toNatBE significant
  if significant.length ≤ 32 ∧ n < order then some n else none

/-- Reads a signature, ignoring what follows it. -/
def decodeLax? : Bytes → Option Signature
  | 0x30 :: rest => do
    let body ← skipLength? rest
    let (r, rest) ← readInteger? body
    let (s, _) ← readInteger? rest
    match scalar? r, scalar? s with
    | some r, some s => some ⟨r, s⟩
    | _, _ => some ⟨0, 0⟩
  | _ => none

end Der

/-- The signature with the lower of the two values of `s` that verify alike. -/
def Signature.normalized (sig : Signature) : Signature :=
  if sig.s > order / 2 then ⟨sig.r, order - sig.s⟩ else sig

end Secp256k1

end BitcoinSpend

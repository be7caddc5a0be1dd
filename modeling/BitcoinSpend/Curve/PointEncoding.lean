import BitcoinSpend.Bytes.Basic
import BitcoinSpend.Curve.Secp256k1

namespace BitcoinSpend

namespace Secp256k1.Point

def encode (compressed : Bool) (p : Point) : Bytes :=
  if compressed then (if p.y % 2 = 0 then 0x02 else 0x03) :: Bytes.ofNatBE 32 p.x
  else 0x04 :: Bytes.ofNatBE 32 p.x ++ Bytes.ofNatBE 32 p.y

/-- A point from both coordinates, if they are reduced and on the curve. -/
def ofCoordinates? (x y : Nat) : Option Point :=
  if x < fieldPrime && y < fieldPrime && onCurve x y then some ⟨x, y⟩ else none

/-- Reads a point. The tags `6` and `7` give both coordinates and the parity of the second. -/
def decode? (bs : Bytes) : Option Point :=
  match bs with
  | [] => none
  | tag :: body =>
    if body.length = 32 then
      match tag.toNat with
      | 2 => lift? (Bytes.toNatBE body) false
      | 3 => lift? (Bytes.toNatBE body) true
      | _ => none
    else if body.length = 64 then
      let x := Bytes.toNatBE (body.take 32)
      let y := Bytes.toNatBE (body.drop 32)
      match tag.toNat with
      | 4 => ofCoordinates? x y
      | 6 => if y % 2 = 0 then ofCoordinates? x y else none
      | 7 => if y % 2 = 1 then ofCoordinates? x y else none
      | _ => none
    else none

end Secp256k1.Point

end BitcoinSpend

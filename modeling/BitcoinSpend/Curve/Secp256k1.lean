import BitcoinSpend.Curve.Modular

namespace BitcoinSpend

namespace Secp256k1

/-- The size of the field. -/
def fieldPrime : Nat :=
  0xfffffffffffffffffffffffffffffffffffffffffffffffffffffffefffffc2f

/-- The order of the group. -/
def order : Nat :=
  0xfffffffffffffffffffffffffffffffebaaedce6af48a03bbfd25e8cd0364141

/-- A finite point by its coordinates. -/
structure Point where
  x : Nat
  y : Nat
deriving DecidableEq, Repr

def generator : Point :=
  ⟨0x79be667ef9dcbbac55a06295ce870b07029bfcdb2dce28d959f2815b16f81798,
   0x483ada7726a3c4655da4fbfc0e1108a8fd17b448a68554199c47d08ffb10d4b8⟩

def onCurve (x y : Nat) : Bool :=
  y * y % fieldPrime == (x * x % fieldPrime * x + 7) % fieldPrime

/-- The square root of the right hand side at `x` with the given parity, if there is one. -/
def lift? (x : Nat) (odd : Bool) : Option Point :=
  let y := Modular.pow fieldPrime ((x * x % fieldPrime * x + 7) % fieldPrime) ((fieldPrime + 1) / 4)
  if x < fieldPrime && onCurve x y then
    some ⟨x, if y % 2 == (if odd then 1 else 0) then y else fieldPrime - y⟩
  else none

/-- A point in the coordinates `x / z²` and `y / z³`, at infinity when `z` is zero. -/
structure Jacobian where
  x : Nat
  y : Nat
  z : Nat

def Point.toJacobian (p : Point) : Jacobian :=
  ⟨p.x, p.y, 1⟩

namespace Jacobian

def infinity : Jacobian :=
  ⟨1, 1, 0⟩

def double (a : Jacobian) : Jacobian :=
  let p := fieldPrime
  let yy := a.y * a.y % p
  let s := 4 * a.x * yy % p
  let m := 3 * a.x * a.x % p
  let x := Modular.sub p (m * m) (2 * s)
  let y := Modular.sub p (m * Modular.sub p s x) (8 * yy * yy)
  ⟨x, y, 2 * a.y * a.z % p⟩

def add (a b : Jacobian) : Jacobian :=
  let p := fieldPrime
  if a.z = 0 then b
  else if b.z = 0 then a
  else
    let za := a.z * a.z % p
    let zb := b.z * b.z % p
    let ua := a.x * zb % p
    let ub := b.x * za % p
    let sa := a.y * zb % p * b.z % p
    let sb := b.y * za % p * a.z % p
    if ua = ub then if sa = sb then a.double else infinity
    else
      let h := Modular.sub p ub ua
      let r := Modular.sub p sb sa
      let hh := h * h % p
      let hhh := hh * h % p
      let v := ua * hh % p
      let x := Modular.sub p (r * r) (hhh + 2 * v)
      let y := Modular.sub p (r * Modular.sub p v x) (sa * hhh)
      ⟨x, y, a.z * b.z % p * h % p⟩

def toPoint? (a : Jacobian) : Option Point :=
  if a.z = 0 then none
  else
    let p := fieldPrime
    let w := Modular.inverse p a.z
    let ww := w * w % p
    some ⟨a.x * ww % p, a.y * ww % p * w % p⟩

/-- The sum of two multiples, both scalars below `2 ^ 256`, by doubling along their common bits. -/
def combine (m : Nat) (a : Jacobian) (n : Nat) (b : Jacobian) : Jacobian :=
  let both := a.add b
  (List.range 256).foldr (fun i acc =>
    let twice := acc.double
    match m.testBit i, n.testBit i with
    | true, true => twice.add both
    | true, false => twice.add a
    | false, true => twice.add b
    | false, false => twice) infinity

end Jacobian

/-- The multiple of the generator by a scalar, unless it is at infinity. -/
def multiple? (n : Nat) : Option Point :=
  (Jacobian.combine n generator.toJacobian 0 Jacobian.infinity).toPoint?

end Secp256k1

end BitcoinSpend

namespace BitcoinSpend

namespace Modular

def sub (m a b : Nat) : Nat :=
  (a + (m - b % m)) % m

/-- Square and multiply over the low 256 bits of the exponent. -/
def pow (m base exponent : Nat) : Nat :=
  (List.range 256).foldr (fun i acc =>
    let square := acc * acc % m
    if exponent.testBit i then square * base % m else square) (1 % m)

/-- The inverse modulo a prime, as a power. -/
def inverse (m a : Nat) : Nat :=
  pow m a (m - 2)

end Modular

end BitcoinSpend

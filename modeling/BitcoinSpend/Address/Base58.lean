import BitcoinSpend.Hash.Composed

namespace BitcoinSpend

namespace Base58

/-- The digits in order: no zero, no capital I or O, no small l. -/
def alphabet : List Char :=
  "123456789ABCDEFGHJKLMNPQRSTUVWXYZabcdefghijkmnopqrstuvwxyz".toList

/-- The base 58 digits of a number, most significant first, put in front of others. At most
`bound` digits are produced. -/
def digits : Nat → Nat → List Nat → List Nat
  | 0, _, acc => acc
  | bound + 1, n, acc => if n = 0 then acc else digits bound (n / 58) (n % 58 :: acc)

/-- A byte takes fewer than two digits, so twice the length bounds the digits. -/
def encode (bs : Bytes) : String :=
  let zeros := (bs.takeWhile (· == 0)).length
  let all := List.replicate zeros 0 ++ digits (2 * bs.length) (Bytes.toNatBE bs) []
  String.ofList (all.map fun d => alphabet.getD d '1')

/-- The text of the bytes followed by the first four bytes of their double hash. -/
def encodeChecked (bs : Bytes) : String :=
  encode (bs ++ (hash256 bs).bytes.take 4)

end Base58

end BitcoinSpend

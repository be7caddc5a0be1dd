import BitcoinSpend.Bytes.Basic

namespace BitcoinSpend

namespace Hash

/-- The message, a one bit, and the fewest zeros that leave room for an eight byte length at the
end of a 64 byte block. -/
def padded (message length : Bytes) : Bytes :=
  message ++ 0x80 :: List.replicate ((119 - message.length % 64) % 64) 0 ++ length

/-- The first `count` runs of `size` elements. -/
def runs {α : Type} (size : Nat) : Nat → List α → List (List α)
  | 0, _ => []
  | count + 1, xs => xs.take size :: runs size count (xs.drop size)

def blocks (bs : Bytes) : List Bytes :=
  runs 64 (bs.length / 64) bs

def wordsBE (block : Bytes) : List UInt32 :=
  (runs 4 16 block).map fun bs => UInt32.ofNat (Bytes.toNatBE bs)

def wordsLE (block : Bytes) : List UInt32 :=
  (runs 4 16 block).map fun bs => UInt32.ofNat (Bytes.toNatLE bs)

def rotateLeft (x n : UInt32) : UInt32 :=
  (x <<< n) ||| (x >>> (32 - n))

def rotateRight (x n : UInt32) : UInt32 :=
  (x >>> n) ||| (x <<< (32 - n))

/-- The length of a message in bits, as the block hashes count it. -/
def bitLength (message : Bytes) : Nat :=
  8 * message.length

end Hash

end BitcoinSpend

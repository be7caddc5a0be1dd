namespace BitcoinSpend

abbrev Bytes := List UInt8

/-- A byte string of length `n`. -/
structure FixedBytes (n : Nat) where
  bytes : Bytes
  length_eq : bytes.length = n
deriving DecidableEq

namespace FixedBytes

/-- Reads a byte string as one of length `n`, if it has that length. -/
def ofBytes? (n : Nat) (bs : Bytes) : Option (FixedBytes n) :=
  if h : bs.length = n then some ⟨bs, h⟩ else none

def zero (n : Nat) : FixedBytes n :=
  ⟨List.replicate n 0, List.length_replicate⟩

def reverse {n : Nat} (b : FixedBytes n) : FixedBytes n :=
  ⟨b.bytes.reverse, by rw [List.length_reverse, b.length_eq]⟩

end FixedBytes

namespace Bytes

/-- The number whose base 256 digits, least significant first, are the bytes. -/
def toNatLE : Bytes → Nat
  | [] => 0
  | b :: bs => b.toNat + 256 * toNatLE bs

/-- The `width` low base 256 digits of a number, least significant first. -/
def ofNatLE : Nat → Nat → Bytes
  | 0, _ => []
  | width + 1, n => UInt8.ofNat n :: ofNatLE width (n / 256)

def toNatBE (bs : Bytes) : Nat :=
  toNatLE bs.reverse

def ofNatBE (width n : Nat) : Bytes :=
  (ofNatLE width n).reverse

@[simp] theorem length_ofNatLE (width n : Nat) : (ofNatLE width n).length = width := by
  induction width generalizing n with
  | zero => rfl
  | succ width ih => simp [ofNatLE, ih]

@[simp] theorem length_ofNatBE (width n : Nat) : (ofNatBE width n).length = width := by
  simp [ofNatBE]

theorem ofNatLE_toNatLE (bs : Bytes) : ofNatLE bs.length (toNatLE bs) = bs := by
  induction bs with
  | nil => rfl
  | cons b bs ih =>
    have := b.toNat_lt
    have low : UInt8.ofNat (b.toNat + 256 * toNatLE bs) = b := by
      apply UInt8.toNat_inj.mp
      simp only [UInt8.toNat_ofNat']
      omega
    have high : (b.toNat + 256 * toNatLE bs) / 256 = toNatLE bs := by omega
    simp only [List.length_cons, toNatLE, ofNatLE, low, high, ih]

/-- The four bytes of a word, least significant first. -/
def ofUInt32 (w : UInt32) : Bytes :=
  ofNatLE 4 w.toNat

def ofInt32 (i : Int32) : Bytes :=
  ofUInt32 i.toUInt32

def ofInt64 (i : Int64) : Bytes :=
  ofNatLE 8 i.toUInt64.toNat

end Bytes

end BitcoinSpend

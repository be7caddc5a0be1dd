import BitcoinSpend.Bytes.Basic

namespace BitcoinSpend

inductive VarintFault where
  | missingBytes
  | notMinimal
deriving DecidableEq, Repr

/-- Why a read failed. Offsets count from the start of the data. -/
inductive CodecError where
  | unexpectedEnd (offset needed available : Nat)
  | varint (offset : Nat) (fault : VarintFault)
deriving DecidableEq, Repr

def VarintFault.message : VarintFault → String
  | .missingBytes => "IO error"
  | .notMinimal => "non-minimal varint"

def CodecError.message : CodecError → String
  | .unexpectedEnd offset needed available =>
    s!"unexpected end of input: needed {needed} bytes at offset {offset}, {available} available"
  | .varint offset fault => s!"invalid varint at offset {offset}: {fault.message}"

/-- The bytes not yet read, and how many were read before them. -/
structure Reader where
  position : Nat
  rest : Bytes
deriving DecidableEq, Repr

abbrev Parser (ε α : Type) := StateT Reader (Except ε) α

def Parser.mapError {ε δ α : Type} (f : ε → δ) (p : Parser ε α) : Parser δ α :=
  fun r => (p r).mapError f

/-- Reads `n` items one after the other. -/
def Parser.replicate {ε α : Type} (p : Parser ε α) : Nat → Parser ε (List α)
  | 0 => pure []
  | n + 1 => do
    let x ← p
    let xs ← Parser.replicate p n
    return x :: xs

/-- Reads one item for each entry of a list. -/
def Parser.forEach {ε α β : Type} (p : α → Parser ε β) : List α → Parser ε (List β)
  | [] => pure []
  | x :: xs => do
    let y ← p x
    let ys ← Parser.forEach p xs
    return y :: ys

namespace Reader

def ofBytes (data : Bytes) : Reader :=
  ⟨0, data⟩

def remaining (r : Reader) : Nat :=
  r.rest.length

def peek? (r : Reader) (offset : Nat) : Option UInt8 :=
  r.rest[offset]?

/-- The next `n` bytes. -/
def bytes (n : Nat) : Parser CodecError Bytes := fun r =>
  let chunk := r.rest.take n
  if chunk.length = n then .ok (chunk, ⟨r.position + n, r.rest.drop n⟩)
  else .error (.unexpectedEnd r.position n r.remaining)

/-- The next `n` bytes, with their number in the type. -/
def fixed (n : Nat) : Parser CodecError (FixedBytes n) := fun r =>
  let chunk := r.rest.take n
  if h : chunk.length = n then .ok (⟨chunk, h⟩, ⟨r.position + n, r.rest.drop n⟩)
  else .error (.unexpectedEnd r.position n r.remaining)

/-- An unsigned number in the next `width` bytes, least significant first. -/
def nat (width : Nat) : Parser CodecError Nat := do
  let bs ← bytes width
  return bs.toNatLE

def uint8 : Parser CodecError UInt8 := do
  return UInt8.ofNat (← nat 1)

def uint16 : Parser CodecError UInt16 := do
  return UInt16.ofNat (← nat 2)

def uint32 : Parser CodecError UInt32 := do
  return UInt32.ofNat (← nat 4)

def int32 : Parser CodecError Int32 := do
  return (UInt32.ofNat (← nat 4)).toInt32

def int64 : Parser CodecError Int64 := do
  return (UInt64.ofNat (← nat 8)).toInt64

end Reader

end BitcoinSpend

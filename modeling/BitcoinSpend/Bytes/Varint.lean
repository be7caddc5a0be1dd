import BitcoinSpend.Bytes.Reader

namespace BitcoinSpend

namespace Varint

def encode (n : Nat) : Bytes :=
  if n < 0xfd then [UInt8.ofNat n]
  else if n < 0x10000 then 0xfd :: Bytes.ofNatLE 2 n
  else if n < 0x100000000 then 0xfe :: Bytes.ofNatLE 4 n
  else 0xff :: Bytes.ofNatLE 8 n

/-- The number of bytes after a tag, and the least value that needs them. -/
def payload (tag : UInt8) : Nat × Nat :=
  if tag = 0xfd then (2, 0xfd)
  else if tag = 0xfe then (4, 0x10000)
  else (8, 0x100000000)

/-- Reads a value in its shortest form. -/
def read : Parser CodecError Nat := fun r =>
  match r.rest with
  | [] => .error (.unexpectedEnd r.position 1 0)
  | tag :: body =>
    if tag < 0xfd then .ok (tag.toNat, ⟨r.position + 1, body⟩)
    else
      let (width, least) := payload tag
      let chunk := body.take width
      if chunk.length < width then .error (.varint r.position .missingBytes)
      else if Bytes.toNatLE chunk < least then .error (.varint r.position .notMinimal)
      else .ok (Bytes.toNatLE chunk, ⟨r.position + 1 + width, body.drop width⟩)

/-- A byte string behind its length. -/
def lengthPrefixed (bs : Bytes) : Bytes :=
  encode bs.length ++ bs

end Varint

end BitcoinSpend

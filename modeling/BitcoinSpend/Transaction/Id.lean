import BitcoinSpend.Bytes.Hex

namespace BitcoinSpend

/-- An id by its bytes in the order in which it is shown. -/
structure TxId where
  bytes : FixedBytes 32
deriving DecidableEq

namespace TxId

/-- The id that a coinbase input spends from. -/
def zero : TxId :=
  ⟨FixedBytes.zero 32⟩

def ofWire (b : FixedBytes 32) : TxId :=
  ⟨b.reverse⟩

def wire (id : TxId) : FixedBytes 32 :=
  id.bytes.reverse

def text (id : TxId) : String :=
  Hex.encode id.bytes.bytes

def ofText (text : String) : Except HexError TxId :=
  (Hex.decodeFixed 32 text).map TxId.mk

end TxId

end BitcoinSpend

import BitcoinSpend.Address.Base58

namespace BitcoinSpend

namespace Address

def ofKeyHash (h : FixedBytes 20) (testnet : Bool) : String :=
  Base58.encodeChecked ((if testnet then 0x6f else 0x00) :: h.bytes)

def ofScriptHash (h : FixedBytes 20) (testnet : Bool) : String :=
  Base58.encodeChecked ((if testnet then 0xc4 else 0x05) :: h.bytes)

/-- The wallet text of a secret; a last byte tells that its public key is compressed. -/
def ofSecret (secret : FixedBytes 32) (compressed testnet : Bool) : String :=
  let network : UInt8 := if testnet then 0xef else 0x80
  Base58.encodeChecked (network :: secret.bytes ++ if compressed then [0x01] else [])

end Address

end BitcoinSpend

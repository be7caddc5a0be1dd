import BitcoinSpend.Bytes.Hex
import BitcoinSpend.Script.Opcode

namespace BitcoinSpend

inductive Command where
  | op (code : Opcode)
  | data (bytes : Bytes)
deriving DecidableEq

abbrev Script := List Command

/-- The longest data push. -/
def maxElementSize : Nat := 520

namespace Command

def text : Command → String
  | .op code => code.name
  | .data [] => Opcode.zero.name
  | .data bytes => Hex.encode bytes

end Command

namespace Script

/-- The commands in order, separated by blanks. -/
def text (s : Script) : String :=
  " ".intercalate (s.map Command.text)

end Script

end BitcoinSpend

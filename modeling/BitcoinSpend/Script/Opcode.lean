namespace BitcoinSpend

/-- A byte that is run as an instruction. -/
structure Opcode where
  byte : UInt8
deriving DecidableEq, Repr

namespace Opcode

def zero : Opcode := ⟨0x00⟩
def pushOne : Opcode := ⟨0x51⟩
def pushSixteen : Opcode := ⟨0x60⟩
def ifTrue : Opcode := ⟨0x63⟩
def ifFalse : Opcode := ⟨0x64⟩
def orElse : Opcode := ⟨0x67⟩
def endIf : Opcode := ⟨0x68⟩
def verify : Opcode := ⟨0x69⟩
def dup : Opcode := ⟨0x76⟩
def equal : Opcode := ⟨0x87⟩
def equalVerify : Opcode := ⟨0x88⟩
def numEqualVerify : Opcode := ⟨0x9d⟩
def hash160 : Opcode := ⟨0xa9⟩
def checkSig : Opcode := ⟨0xac⟩
def checkSigVerify : Opcode := ⟨0xad⟩
def checkMultiSigVerify : Opcode := ⟨0xaf⟩

/-- The names from `0x61` to `0xba`. -/
def names : List String :=
  ["NOP", "VER", "IF", "NOTIF", "VERIF", "VERNOTIF", "ELSE", "ENDIF", "VERIFY", "RETURN",
   "TOALTSTACK", "FROMALTSTACK", "2DROP", "2DUP", "3DUP", "2OVER", "2ROT", "2SWAP", "IFDUP",
   "DEPTH", "DROP", "DUP", "NIP", "OVER", "PICK", "ROLL", "ROT", "SWAP", "TUCK", "CAT", "SUBSTR",
   "LEFT", "RIGHT", "SIZE", "INVERT", "AND", "OR", "XOR", "EQUAL", "EQUALVERIFY", "RESERVED1",
   "RESERVED2", "1ADD", "1SUB", "2MUL", "2DIV", "NEGATE", "ABS", "NOT", "0NOTEQUAL", "ADD", "SUB",
   "MUL", "DIV", "MOD", "LSHIFT", "RSHIFT", "BOOLAND", "BOOLOR", "NUMEQUAL", "NUMEQUALVERIFY",
   "NUMNOTEQUAL", "LESSTHAN", "GREATERTHAN", "LESSTHANOREQUAL", "GREATERTHANOREQUAL", "MIN", "MAX",
   "WITHIN", "RIPEMD160", "SHA1", "SHA256", "HASH160", "HASH256", "CODESEPARATOR", "CHECKSIG",
   "CHECKSIGVERIFY", "CHECKMULTISIG", "CHECKMULTISIGVERIFY", "NOP1", "CLTV", "CSV", "NOP4", "NOP5",
   "NOP6", "NOP7", "NOP8", "NOP9", "NOP10", "CHECKSIGADD"]

/-- The name of an opcode. Pushes, small numbers and unassigned bytes are numbered. -/
def name (op : Opcode) : String :=
  let n := op.byte.toNat
  let word :=
    if n ≤ 0x4b then s!"PUSHBYTES_{n}"
    else if n = 0x4c then "PUSHDATA1"
    else if n = 0x4d then "PUSHDATA2"
    else if n = 0x4e then "PUSHDATA4"
    else if n = 0x4f then "PUSHNUM_NEG1"
    else if n = 0x50 then "RESERVED"
    else if n ≤ 0x60 then s!"PUSHNUM_{n - 0x50}"
    else if n ≤ 0xba then names.getD (n - 0x61) ""
    else if n = 0xff then "INVALIDOPCODE"
    else s!"RETURN_{n}"
  "OP_" ++ word

end Opcode

end BitcoinSpend

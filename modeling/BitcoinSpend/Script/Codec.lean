import BitcoinSpend.Bytes.Varint
import BitcoinSpend.Script.Basic

namespace BitcoinSpend

inductive ScriptError where
  | truncated (cause : CodecError)
  | lengthMismatch (declared consumed : Nat)
  | tooLong (length : Nat)
deriving DecidableEq, Repr

def ScriptError.message : ScriptError → String
  | .truncated cause => s!"script truncated: {cause.message}"
  | .lengthMismatch declared consumed =>
    s!"script declares {declared} bytes but its commands span {consumed}"
  | .tooLong length => s!"push of {length} bytes exceeds MAX_SCRIPT_ELEMENT_SIZE (520)"

instance : MonadLift (Parser CodecError) (Parser ScriptError) :=
  ⟨Parser.mapError .truncated⟩

namespace Command

/-- The number of bytes that a command byte says it pushes, or nothing for an opcode. -/
def readPushLength (byte : UInt8) : Parser CodecError (Option Nat) :=
  if 1 ≤ byte ∧ byte ≤ 75 then return some byte.toNat
  else if byte = 76 then return some (← Reader.nat 1)
  else if byte = 77 then return some (← Reader.nat 2)
  else return none

def read : Parser ScriptError Command := do
  let byte ← Reader.uint8
  match ← readPushLength byte with
  | none => return .op ⟨byte⟩
  | some n =>
    if n > maxElementSize then throw (.tooLong n)
    return .data (← Reader.bytes n)

/-- The shortest form of a command. -/
def encode : Command → Except ScriptError Bytes
  | .op code => .ok [code.byte]
  | .data bs =>
    let n := bs.length
    if n ≤ 75 then .ok (UInt8.ofNat n :: bs)
    else if n ≤ 0xff then .ok (76 :: UInt8.ofNat n :: bs)
    else if n ≤ maxElementSize then .ok (77 :: Bytes.ofNatLE 2 n ++ bs)
    else .error (.tooLong n)

end Command

namespace Script

/-- Reads commands until nothing is left. Every command takes at least one byte, so that as many
rounds as there are bytes are enough. -/
def readCommands : Nat → Parser ScriptError Script
  | 0 => return []
  | rounds + 1 => fun r =>
    if r.rest.isEmpty then .ok ([], r)
    else (do
      let c ← Command.read
      let cs ← readCommands rounds
      return c :: cs : Parser ScriptError Script) r

/-- Reads a script from its body. -/
def ofBody (body : Bytes) : Except ScriptError Script :=
  (readCommands body.length (Reader.ofBytes body)).map Prod.fst

/-- Reads the body of a script whose length was declared. Running off the end of the body means that
the length is wrong. -/
def ofDeclaredBody (body : Bytes) : Except ScriptError Script :=
  (ofBody body).mapError fun
    | .truncated (.unexpectedEnd offset needed _) => .lengthMismatch body.length (offset + needed)
    | e => e

/-- Reads a script behind its length. -/
def read : Parser ScriptError Script := do
  let declared ← Varint.read
  let body ← Reader.bytes declared
  ofDeclaredBody body

/-- Reads a script behind its length from the front of the data, and counts the bytes it took. -/
def ofBytes (data : Bytes) : Except ScriptError (Script × Nat) :=
  (read (Reader.ofBytes data)).map fun (s, r) => (s, r.position)

def body (s : Script) : Except ScriptError Bytes :=
  match s with
  | [] => .ok []
  | c :: cs => do
    let front ← c.encode
    let back ← body cs
    return front ++ back

/-- The body behind its length. -/
def bytes (s : Script) : Except ScriptError Bytes := do
  let b ← s.body
  return Varint.lengthPrefixed b

end Script

end BitcoinSpend

import BitcoinSpend.Hash.Composed
import BitcoinSpend.Text.Blank
import BitcoinSpend.Transaction.Basic
import BitcoinSpend.Transaction.Error

namespace BitcoinSpend

instance : MonadLift (Parser CodecError) (Parser WireError) :=
  ⟨Parser.mapError .codec⟩

instance : MonadLift (Parser ScriptError) (Parser WireError) :=
  ⟨Parser.mapError .script⟩

namespace OutPoint

def read : Parser CodecError OutPoint := do
  let tx ← Reader.fixed 32
  let index ← Reader.uint32
  return ⟨TxId.ofWire tx, index⟩

def bytes (o : OutPoint) : Bytes :=
  o.tx.wire.bytes ++ Bytes.ofUInt32 o.index

end OutPoint

/-- Reads a count and as many items. -/
def Parser.counted {α : Type} (p : Parser WireError α) : Parser WireError (List α) := do
  let count ← Varint.read
  p.replicate count

namespace Input

/-- Reads an input without its witness, which stands elsewhere. -/
def read : Parser WireError Input := do
  let outPoint ← OutPoint.read
  let script ← Script.read
  let sequence ← Reader.uint32
  return { outPoint, script, sequence, witness := [] }

def readWitnessItem : Parser WireError Bytes := do
  let length ← Varint.read
  Reader.bytes length

def readWitness (i : Input) : Parser WireError Input := do
  let witness ← readWitnessItem.counted
  return { i with witness }

/-- The input without its witness, with a script in place of its own. -/
def bytesWith (i : Input) (script : Script) : Except ScriptError Bytes := do
  let s ← script.bytes
  return i.outPoint.bytes ++ s ++ Bytes.ofUInt32 i.sequence

def bytes (i : Input) : Except ScriptError Bytes :=
  i.bytesWith i.script

def witnessBytes (i : Input) : Bytes :=
  Varint.encode i.witness.length ++ i.witness.flatMap Varint.lengthPrefixed

end Input

namespace Output

def read : Parser WireError Output := do
  let amount ← Reader.int64
  let script ← Script.read
  return { amount, script }

def bytes (o : Output) : Except ScriptError Bytes := do
  let s ← o.script.bytes
  return Bytes.ofInt64 o.amount ++ s

end Output

/-- Joins the bytes of all items, unless one has none. -/
def joinBytes {α : Type} (f : α → Except ScriptError Bytes) (xs : List α) :
    Except ScriptError Bytes :=
  match xs with
  | [] => .ok []
  | x :: xs => do
    let front ← f x
    let back ← joinBytes f xs
    return front ++ back

namespace Transaction

/-- Reads the marker and the flag behind the version. The count of inputs is never zero in the plain
layout, so a zero here is the marker. -/
def readMarker : Parser WireError Bool := do
  if (← get).peek? 0 = some 0 then
    let _ ← Reader.uint8
    let flag ← Reader.uint8
    if flag ≠ 1 then throw (.segwitMarker flag)
    return true
  else return false

def read (testnet : Bool) : Parser WireError Transaction := do
  let version ← Reader.int32
  let segwit ← readMarker
  let inputs ← Input.read.counted
  let outputs ← Output.read.counted
  let inputs ← if segwit then Parser.forEach Input.readWitness inputs else pure inputs
  let lockTime ← Reader.uint32
  return { version, inputs, outputs, lockTime, segwit, testnet }

/-- Reads a transaction that takes all of the data. -/
def ofBytes (data : Bytes) (testnet : Bool) : Except WireError Transaction := do
  let (tx, r) ← read testnet (Reader.ofBytes data)
  if r.rest.isEmpty then return tx else throw (.trailingBytes r.remaining)

/-- Reads a transaction from hexadecimal digits, which blanks may surround. -/
def ofText (text : String) (testnet : Bool) : Except WireError Transaction := do
  let data ← (Hex.decode (Text.trim text)).mapError .hex
  ofBytes data testnet

def inputsAndOutputs (tx : Transaction) : Except ScriptError Bytes := do
  let inputs ← joinBytes Input.bytes tx.inputs
  let outputs ← joinBytes Output.bytes tx.outputs
  return Varint.encode tx.inputs.length ++ inputs ++
    (Varint.encode tx.outputs.length ++ outputs)

/-- The layout without witnesses. -/
def legacyBytes (tx : Transaction) : Except ScriptError Bytes := do
  let body ← tx.inputsAndOutputs
  return Bytes.ofInt32 tx.version ++ body ++ Bytes.ofUInt32 tx.lockTime

/-- The layout with marker, flag and witnesses. -/
def segwitBytes (tx : Transaction) : Except ScriptError Bytes := do
  let body ← tx.inputsAndOutputs
  return Bytes.ofInt32 tx.version ++ [0x00, 0x01] ++ body ++
    tx.inputs.flatMap Input.witnessBytes ++ Bytes.ofUInt32 tx.lockTime

def bytes (tx : Transaction) : Except ScriptError Bytes :=
  if tx.segwit then tx.segwitBytes else tx.legacyBytes

def hash (tx : Transaction) : Except ScriptError Digest := do
  let bs ← tx.legacyBytes
  return hash256 bs

def id (tx : Transaction) : Except ScriptError TxId := do
  let h ← tx.hash
  return TxId.ofWire h

end Transaction

end BitcoinSpend

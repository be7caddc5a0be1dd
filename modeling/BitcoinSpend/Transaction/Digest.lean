import BitcoinSpend.Transaction.Spent

namespace BitcoinSpend

/-- The hash type that every signature has: it signs all inputs and outputs. -/
def signAll : UInt8 := 1

def signAllWord : Bytes :=
  Bytes.ofNatLE 4 signAll.toNat

/-- Hashes of a whole transaction that were computed before. -/
structure DigestMemo where
  outPointsAndSequences : Option (Digest × Digest) := none
  outputs : Option Digest := none
deriving DecidableEq

/-- A computation that keeps the hashes it computes, also when it fails. -/
abbrev DigestM (α : Type) := EStateM TxError DigestMemo α

namespace Transaction

/-- The transaction with one script in the given input and empty scripts in the others. -/
def signedInputs (index : Nat) (code : Script) (inputs : List Input) : Except ScriptError Bytes :=
  joinBytes (fun (i, n) => Input.bytesWith i (if n = index then code else [])) inputs.zipIdx

/-- What the plain digest hashes. -/
def legacyPreimage (tx : Transaction) (index : Nat) (code : Script) : Except ScriptError Bytes := do
  let inputs ← signedInputs index code tx.inputs
  let outputs ← joinBytes Output.bytes tx.outputs
  return Bytes.ofInt32 tx.version ++ Varint.encode tx.inputs.length ++ inputs ++
    Varint.encode tx.outputs.length ++ outputs ++ Bytes.ofUInt32 tx.lockTime ++ signAllWord

/-- The plain digest of an input. Its script code is the redeem script, if there is one, or the
script that locks the spent output. -/
def legacyDigest (tx : Transaction) (fetch : Fetcher) (index : Nat) (redeem : Option Script) :
    Except TxError Digest := do
  let i ← tx.input index
  let code ←
    match redeem with
    | some script => pure script
    | none => i.locking fetch tx.testnet
  let preimage ← (tx.legacyPreimage index code).mapError fun e => .wire (.script e)
  return hash256 preimage

def hashOutPoints (tx : Transaction) : Digest :=
  hash256 (tx.inputs.flatMap fun i => i.outPoint.bytes)

def hashSequences (tx : Transaction) : Digest :=
  hash256 (tx.inputs.flatMap fun i => Bytes.ofUInt32 i.sequence)

def hashOutputs (tx : Transaction) : Except ScriptError Digest := do
  let outputs ← joinBytes Output.bytes tx.outputs
  return hash256 outputs

/-- The hashes of all out points and of all sequences, computed once. -/
def outPointsAndSequences (tx : Transaction) : DigestM (Digest × Digest) := fun memo =>
  match memo.outPointsAndSequences with
  | some hashes => .ok hashes memo
  | none =>
    let hashes := (tx.hashOutPoints, tx.hashSequences)
    .ok hashes { memo with outPointsAndSequences := some hashes }

/-- The hash of all outputs, computed once. -/
def outputsHash (tx : Transaction) : DigestM Digest := fun memo =>
  match memo.outputs with
  | some h => .ok h memo
  | none =>
    match tx.hashOutputs with
    | .ok h => .ok h { memo with outputs := some h }
    | .error e => .error (.wire (.script e)) memo

/-- The three hashes of the whole transaction. -/
def wholeHashes (tx : Transaction) : DigestM (Digest × Digest × Digest) := do
  let (outPoints, sequences) ← tx.outPointsAndSequences
  let outputs ← tx.outputsHash
  return (outPoints, sequences, outputs)

/-- The script code of a key hash program: the script that pays to the same key hash. -/
def keyHashCode (program : Script) : Except TxError Bytes :=
  match program.witnessKeyHash? with
  | some h => (Script.payToKeyHash h).bytes.mapError fun e => .wire (.script e)
  | none => .error .embeddedScript

/-- The script code of an input: the witness script, if there is one, or what the key hash program
of the redeem script or of the spent output stands for. -/
def witnessCode (tx : Transaction) (fetch : Fetcher) (i : Input)
    (redeem witnessScript : Option Script) : Except TxError Bytes :=
  match witnessScript, redeem with
  | some script, _ => script.bytes.mapError fun e => .wire (.script e)
  | none, some program => keyHashCode program
  | none, none => do
    let program ← i.locking fetch tx.testnet
    keyHashCode program

/-- What the witness digest hashes. -/
def witnessPreimage (tx : Transaction) (i : Input) (code : Bytes) (amount : Int64)
    (outPoints sequences outputs : Digest) : Bytes :=
  Bytes.ofInt32 tx.version ++ outPoints.bytes ++ sequences.bytes ++ i.outPoint.bytes ++ code ++
    Bytes.ofInt64 amount ++ Bytes.ofUInt32 i.sequence ++ outputs.bytes ++
    Bytes.ofUInt32 tx.lockTime ++ signAllWord

/-- The witness digest of an input. -/
def witnessDigest (tx : Transaction) (fetch : Fetcher) (index : Nat)
    (redeem witnessScript : Option Script) : DigestM Digest := do
  let i ← ofExcept (tx.input index)
  let (outPoints, sequences) ← tx.outPointsAndSequences
  let code ← ofExcept (tx.witnessCode fetch i redeem witnessScript)
  let amount ← ofExcept (i.amount fetch tx.testnet)
  let outputs ← tx.outputsHash
  return hash256 (tx.witnessPreimage i code amount outPoints sequences outputs)

end Transaction

end BitcoinSpend

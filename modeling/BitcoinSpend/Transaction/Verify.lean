import BitcoinSpend.Transaction.Digest

namespace BitcoinSpend

/-- The digest that signatures of an input sign, and whether its witness is run. -/
structure InputDigest where
  digest : Digest
  usesWitness : Bool
deriving DecidableEq

namespace InputDigest

def legacy (digest : Digest) : InputDigest :=
  ⟨digest, false⟩

def segwit (digest : Digest) : InputDigest :=
  ⟨digest, true⟩

end InputDigest

/-- Reads a script that is embedded as data. -/
def embeddedScript (body : Option Bytes) : Except TxError Script :=
  match body.map Script.ofBody with
  | some (.ok script) => .ok script
  | _ => .error .embeddedScript

namespace Input

/-- The script that the last push of an input's script holds. -/
def redeemScript (i : Input) : Except TxError Script :=
  match i.script.getLast? with
  | some (.data body) => embeddedScript (some body)
  | _ => embeddedScript none

/-- The script that the last witness item holds. -/
def witnessScript (i : Input) : Except TxError Script :=
  embeddedScript i.witness.getLast?

end Input

namespace Transaction

/-- Chooses the digest of an input by the template of the script that locks the spent output, and
for a script hash by the template of the redeem script. -/
def selectDigest (tx : Transaction) (fetch : Fetcher) (index : Nat) (i : Input)
    (locking : Script) : DigestM InputDigest :=
  match locking.template with
  | .scriptHash _ => do
    let redeem ← ofExcept i.redeemScript
    match redeem.template with
    | .witnessKeyHash _ => InputDigest.segwit <$> tx.witnessDigest fetch index (some redeem) none
    | .witnessScriptHash _ => do
      let script ← ofExcept i.witnessScript
      InputDigest.segwit <$> tx.witnessDigest fetch index none (some script)
    | _ => InputDigest.legacy <$> ofExcept (tx.legacyDigest fetch index (some redeem))
  | .witnessKeyHash _ => InputDigest.segwit <$> tx.witnessDigest fetch index none none
  | .witnessScriptHash _ => do
    let script ← ofExcept i.witnessScript
    InputDigest.segwit <$> tx.witnessDigest fetch index none (some script)
  | _ => InputDigest.legacy <$> ofExcept (tx.legacyDigest fetch index none)

def inputDigest (tx : Transaction) (fetch : Fetcher) (index : Nat) : DigestM InputDigest := do
  let i ← ofExcept (tx.input index)
  let locking ← ofExcept (i.locking fetch tx.testnet)
  tx.selectDigest fetch index i locking

/-- The context in which the scripts of an input are run. -/
def context (tx : Transaction) (scheme : SignatureScheme) (i : Input) (d : InputDigest) :
    Context where
  scheme := scheme
  digest := d.digest
  witness := if d.usesWitness then i.witness else []
  lockTime := some ⟨tx.version, tx.lockTime, i.sequence⟩

/-- Runs the script of an input and then the script that locks the spent output. -/
def verifyInput (tx : Transaction) (scheme : SignatureScheme) (fetch : Fetcher) (index : Nat) :
    DigestM Bool := do
  let i ← ofExcept (tx.input index)
  let locking ← ofExcept (i.locking fetch tx.testnet)
  let d ← tx.selectDigest fetch index i locking
  ofExcept (((tx.context scheme i d).evaluate (i.script ++ locking)).mapError .eval)

/-- Verifies inputs in order, up to the first that does not verify. -/
def verifyInputs (tx : Transaction) (scheme : SignatureScheme) (fetch : Fetcher) :
    List Nat → DigestM Bool
  | [] => return true
  | index :: rest => do
    if ← tx.verifyInput scheme fetch index then tx.verifyInputs scheme fetch rest else return false

/-- A transaction verifies when its fee is not negative and all its inputs verify. -/
def verify (tx : Transaction) (scheme : SignatureScheme) (fetch : Fetcher) : DigestM Bool :=
  match tx.fee fetch with
  | .error .amountOverflow => return false
  | .error e => throw e
  | .ok fee =>
    if fee < 0 then return false
    else tx.verifyInputs scheme fetch (List.range tx.inputs.length)

/-- The transaction with a script in place of that of one input. -/
def withScript (tx : Transaction) (index : Nat) (script : Script) : Transaction :=
  { tx with inputs := tx.inputs.modify index fun i => { i with script } }

end Transaction

/-- A transaction that is being signed, with the hashes of it that were computed. -/
structure Draft where
  tx : Transaction
  memo : DigestMemo
deriving DecidableEq

namespace Draft

/-- Lets a computation use and keep the hashes of a draft. -/
def lift {α : Type} (f : Transaction → DigestM α) : EStateM TxError Draft α := fun d =>
  match f d.tx d.memo with
  | .ok a memo => .ok a { d with memo }
  | .error e memo => .error e { d with memo }

/-- The script that unlocks a key hash: a signature of a digest with its hash type, and the key. -/
def unlockingScript (scheme : SignatureScheme) (secret : scheme.Secret) (compressed : Bool)
    (z : Digest) : Script :=
  [.data (scheme.encodeSignature (scheme.sign secret z) ++ [signAll]),
   .data (scheme.encodePoint compressed (scheme.publicKey secret))]

/-- Signs an input that spends a key hash, and tells whether it verifies then. -/
def signInput (scheme : SignatureScheme) (fetch : Fetcher) (index : Nat) (secret : scheme.Secret)
    (compressed : Bool) : EStateM TxError Draft Bool := do
  let tx := (← get).tx
  let i ← ofExcept (tx.input index)
  let locking ← ofExcept (i.locking fetch tx.testnet)
  match locking.template with
  | .keyHash _ =>
    let z ← ofExcept (tx.legacyDigest fetch index none)
    modify fun d =>
      { d with tx := d.tx.withScript index (unlockingScript scheme secret compressed z) }
    lift fun tx => tx.verifyInput scheme fetch index
  | other => throw (.unsupportedSigning other)

end Draft

end BitcoinSpend

import BitcoinSpend.Curve.Ecdsa
import BitcoinSpend.Json.Text
import BitcoinSpend.Tool.Arguments
import BitcoinSpend.Tool.Error
import BitcoinSpend.Transaction.Cache
import BitcoinSpend.Transaction.Text
import BitcoinSpend.Transaction.Verify

namespace BitcoinSpend

/-- What an input spends, and whether it verifies. -/
structure InputReport where
  index : Nat
  outPoint : OutPoint
  locking : Template
  valid : Bool
deriving DecidableEq

structure VerifyReport where
  id : TxId
  fee : Int
  inputs : List InputReport
  valid : Bool
deriving DecidableEq

structure DigestReport where
  input : Nat
  digest : InputDigest
deriving DecidableEq

structure ScriptReport where
  text : String
  template : Template
  address : Option String
deriving DecidableEq

structure KeyReport where
  publicKey : Bytes
  wallet : String
  address : String
deriving DecidableEq

namespace InputReport

def json (r : InputReport) : Json :=
  .object
    [("index", .number r.index), ("prevout", .text r.outPoint.text),
     ("script_type", .text r.locking.name), ("valid", .truth r.valid)]

end InputReport

namespace VerifyReport

def ofInput (tx : Transaction) (scheme : SignatureScheme) (fetch : Fetcher) (testnet : Bool)
    (index : Nat) (i : Input) : DigestM InputReport := do
  let locking ← ofExcept (i.locking fetch testnet)
  let valid ← tx.verifyInput scheme fetch index
  return { index, outPoint := i.outPoint, locking := locking.template, valid }

def ofInputs (tx : Transaction) (scheme : SignatureScheme) (fetch : Fetcher) (testnet : Bool) :
    List (Input × Nat) → DigestM (List InputReport)
  | [] => return []
  | (i, index) :: rest => do
    let report ← ofInput tx scheme fetch testnet index i
    let reports ← ofInputs tx scheme fetch testnet rest
    return report :: reports

/-- Verifies every input, also behind one that does not verify. -/
def ofTransaction (tx : Transaction) (scheme : SignatureScheme) (fetch : Fetcher) (testnet : Bool) :
    DigestM VerifyReport := do
  let fee ← ofExcept (tx.fee fetch)
  let inputs ← ofInputs tx scheme fetch testnet tx.inputs.zipIdx
  let id ← ofExcept (tx.id.mapError fun e => .wire (.script e))
  return { id, fee, inputs, valid := 0 ≤ fee && inputs.all (·.valid) }

def json (r : VerifyReport) : Json :=
  .object
    [("txid", .text r.id.text), ("fee", .number r.fee),
     ("inputs", .list (r.inputs.map InputReport.json)), ("valid", .truth r.valid)]

end VerifyReport

namespace DigestReport

def json (r : DigestReport) : Json :=
  .object
    [("input", .number r.input),
     ("algorithm", .text (if r.digest.usesWitness then "bip143" else "legacy")),
     ("sighash", .text (Hex.encode r.digest.digest.bytes))]

end DigestReport

namespace ScriptReport

def ofScript (s : Script) (testnet : Bool) : ScriptReport :=
  ⟨s.text, s.template, s.template.address? testnet⟩

/-- The address is left out when there is none. -/
def json (r : ScriptReport) : Json :=
  .object
    ([("asm", .text r.text), ("type", .text r.template.name)] ++
      (r.address.map fun a => ("address", .text a)).toList)

end ScriptReport

namespace KeyReport

def ofSecret (secret : Secp256k1.Secret) (compressed testnet : Bool) : KeyReport :=
  let key := secret.publicKey.encode compressed
  ⟨key, Address.ofSecret secret.bytes compressed testnet, Address.ofKeyHash (hash160 key) testnet⟩

def json (r : KeyReport) : Json :=
  .object
    [("sec", .text (Hex.encode r.publicKey)), ("wif", .text r.wallet), ("address", .text r.address)]

end KeyReport

end BitcoinSpend

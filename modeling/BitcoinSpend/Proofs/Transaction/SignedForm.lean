import BitcoinSpend.Proofs.Machine.Success
import BitcoinSpend.Proofs.Transaction.Canonical
import BitcoinSpend.Proofs.Transaction.Spent
import BitcoinSpend.Transaction.Verify

namespace BitcoinSpend

namespace Transaction

/-- The transaction with a script on one input and without scripts on the others. -/
def signedForm (tx : Transaction) (index : Nat) (code : Script) : Transaction :=
  { tx with
    inputs := tx.inputs.mapIdx fun n i => { i with script := if n = index then code else [] } }

variable {tx : Transaction} {index : Nat} {code : Script}

@[simp] theorem length_inputs_signedForm :
    (tx.signedForm index code).inputs.length = tx.inputs.length := by
  simp [signedForm]

theorem joinBytes_inputs_signedForm :
    joinBytes Input.bytes (tx.signedForm index code).inputs =
      signedInputs index code tx.inputs := by
  show joinBytes Input.bytes (tx.inputs.mapIdx _) = _
  rw [List.mapIdx_eq_zipIdx_map, joinBytes_map]
  rfl

/-- What the plain digest hashes is the signed form, with the hash type behind it. Both fail at the
first script that cannot be written. -/
theorem legacyPreimage_eq : tx.legacyPreimage index code =
    (· ++ signAllWord) <$> (tx.signedForm index code).legacyBytes := by
  unfold legacyPreimage legacyBytes inputsAndOutputs
  rw [joinBytes_inputs_signedForm, length_inputs_signedForm]
  cases signedInputs index code tx.inputs with
  | error e => rfl
  | ok inputs =>
    show _ = _ <$> ((joinBytes Output.bytes tx.outputs >>= _) >>= _)
    cases joinBytes Output.bytes tx.outputs with
    | error e => rfl
    | ok outputs => simp [signedForm, bind, Except.bind, pure, Except.pure, Functor.map, Except.map]

theorem signedForm_withScript (other : Nat) (script : Script) :
    (tx.withScript other script).signedForm index code = tx.signedForm index code := by
  have hinputs : ((tx.withScript other script).signedForm index code).inputs =
      (tx.signedForm index code).inputs := by
    apply List.ext_getElem?
    intro n
    simp only [signedForm, withScript, List.getElem?_mapIdx, List.getElem?_modify]
    by_cases hn : other = n <;> simp [hn, Function.comp_def]
  exact congrArg (fun inputs => { tx with inputs }) hinputs

theorem input_withScript (other : Nat) (script : Script) :
    (tx.withScript other script).input index =
      (fun i => if other = index then { i with script } else i) <$> tx.input index := by
  simp only [input, withScript, List.getElem?_modify, List.length_modify]
  cases tx.inputs[index]? with
  | none => rfl
  | some i => by_cases hn : other = index <;> simp [hn]

/-- No script of an input is hashed, so none that is put there changes a plain digest. -/
theorem legacyDigest_withScript (fetch : Fetcher) (other : Nat) (script : Script)
    (redeem : Option Script) : (tx.withScript other script).legacyDigest fetch index redeem =
      tx.legacyDigest fetch index redeem := by
  have hpreimage : ∀ code, (tx.withScript other script).legacyPreimage index code =
      tx.legacyPreimage index code := by
    intro code
    rw [legacyPreimage_eq, signedForm_withScript, legacyPreimage_eq]
  unfold legacyDigest
  simp only [input_withScript, hpreimage]
  cases tx.input index with
  | error e => rfl
  | ok i =>
    have hlocking : (if other = index then { i with script } else i).locking fetch tx.testnet =
        i.locking fetch tx.testnet := by
      split <;> rfl
    cases redeem with
    | some code => rfl
    | none =>
      show Except.bind (Input.locking (if other = index then _ else _) fetch tx.testnet) _ = _
      rw [hlocking]
      rfl

/-- The plain digest of an input hashes the bytes of the transaction without witnesses, in which the
input has its script code for a script and the other inputs have none, and behind them the hash type
as a word. The script code is the redeem script, or else the script of the output that the input
names. The digest is missing for the same cause as that output, if it is asked for, or as these
bytes. -/
theorem legacyDigest_hashes_signedForm (tx : Transaction) (fetch : Fetcher)
    (index : Fin tx.inputs.length) (redeem : Option Script) :
    ∃ spent, (tx.inputs.get index).outPoint.Resolves fetch tx.testnet spent ∧
      tx.legacyDigest fetch index redeem = do
        let code ← redeem.elim (Output.script <$> spent) .ok
        let bytes ← (tx.signedForm index code).legacyBytes.mapError fun e => .wire (.script e)
        return hash256 (bytes ++ [0x01, 0x00, 0x00, 0x00]) := by
  refine ⟨_, OutPoint.resolves_output _ fetch tx.testnet, ?_⟩
  have hi : tx.input index = .ok (tx.inputs.get index) := by simp [input]
  have hword : signAllWord = [0x01, 0x00, 0x00, 0x00] := rfl
  have hcode : ∀ code, ((tx.legacyPreimage index code).mapError fun e => TxError.wire (.script e)) =
      (· ++ [0x01, 0x00, 0x00, 0x00]) <$>
        (tx.signedForm index code).legacyBytes.mapError fun e => .wire (.script e) := by
    intro code
    rw [legacyPreimage_eq, hword]
    cases (tx.signedForm index code).legacyBytes <;> rfl
  unfold legacyDigest
  simp only [hi, hcode, bind_map_left, ← Input.locking_eq_map]
  cases redeem <;> rfl

end Transaction

end BitcoinSpend

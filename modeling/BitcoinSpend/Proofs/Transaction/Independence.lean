import BitcoinSpend.Proofs.Machine.MultiSig
import BitcoinSpend.Proofs.Spend.KeyHash
import BitcoinSpend.Proofs.Transaction.Canonical
import BitcoinSpend.Proofs.Transaction.Memo

namespace BitcoinSpend

/-- What the digests of other inputs tell of an input: the output it spends, and its sequence. -/
def Input.told (i : Input) : OutPoint × UInt32 :=
  (i.outPoint, i.sequence)

namespace Transaction

/-- Transactions that differ at most in scripts and witnesses of inputs other than one. -/
structure AlikeAt (index : Nat) (tx tx' : Transaction) : Prop where
  version : tx.version = tx'.version
  outputs : tx.outputs = tx'.outputs
  lockTime : tx.lockTime = tx'.lockTime
  testnet : tx.testnet = tx'.testnet
  told : tx.inputs.map Input.told = tx'.inputs.map Input.told
  at_index : tx.inputs[index]? = tx'.inputs[index]?

variable {tx tx' tx'' : Transaction} {scheme : SignatureScheme} {fetch : Fetcher} {index : Nat}

theorem AlikeAt.refl (index : Nat) (tx : Transaction) : tx.AlikeAt index tx :=
  ⟨rfl, rfl, rfl, rfl, rfl, rfl⟩

theorem AlikeAt.trans (h : tx.AlikeAt index tx') (h' : tx'.AlikeAt index tx'') :
    tx.AlikeAt index tx'' :=
  ⟨h.version.trans h'.version, h.outputs.trans h'.outputs, h.lockTime.trans h'.lockTime,
    h.testnet.trans h'.testnet, h.told.trans h'.told, h.at_index.trans h'.at_index⟩

section

variable {f : Input → Input} (hf : ∀ i, (f i).told = i.told)

include hf

theorem alikeAt_modifyInput {other : Nat} (hne : other ≠ index) (tx : Transaction) :
    tx.AlikeAt index (tx.modifyInput other f) where
  version := rfl
  outputs := rfl
  lockTime := rfl
  testnet := rfl
  told := (map_modify_eq_map hf tx.inputs other).symm
  at_index := (List.getElem?_modify_ne f tx.inputs hne).symm

theorem AlikeAt.modifyInput (h : tx.AlikeAt index tx') :
    (tx.modifyInput index f).AlikeAt index (tx'.modifyInput index f) where
  version := h.version
  outputs := h.outputs
  lockTime := h.lockTime
  testnet := h.testnet
  told := by
    show (tx.inputs.modify index f).map Input.told = (tx'.inputs.modify index f).map Input.told
    rw [map_modify_eq_map hf, map_modify_eq_map hf, h.told]
  at_index := by
    show (tx.inputs.modify index f)[index]? = (tx'.inputs.modify index f)[index]?
    rw [List.getElem?_modify_eq, List.getElem?_modify_eq, h.at_index]

end

namespace AlikeAt

variable (h : tx.AlikeAt index tx')

include h

theorem length_inputs_eq : tx.inputs.length = tx'.inputs.length := by
  simpa using congrArg List.length h.told

theorem input_eq : tx.input index = tx'.input index := by
  unfold input
  rw [h.at_index, h.length_inputs_eq]

theorem signedInputs_eq (code : Script) :
    signedInputs index code tx.inputs = signedInputs index code tx'.inputs := by
  -- The script code stands at a position, whatever script the input there has.
  have htold : ∀ inputs : List Input, signedInputs index code inputs =
      joinBytes (fun (told, n) => do
        let s ← Script.bytes (if n = index then code else [])
        return told.1.bytes ++ s ++ Bytes.ofUInt32 told.2) (inputs.map Input.told).zipIdx := by
    intro inputs
    rw [List.zipIdx_map, joinBytes_map]
    rfl
  rw [htold, htold, h.told]

theorem flatMap_told_eq (text : OutPoint × UInt32 → Bytes) :
    (tx.inputs.flatMap fun i => text i.told) = tx'.inputs.flatMap fun i => text i.told := by
  rw [← List.flatMap_map, h.told, List.flatMap_map]

theorem hashOutPoints_eq : tx.hashOutPoints = tx'.hashOutPoints :=
  congrArg hash256 (h.flatMap_told_eq fun told => told.1.bytes)

theorem hashSequences_eq : tx.hashSequences = tx'.hashSequences :=
  congrArg hash256 (h.flatMap_told_eq fun told => Bytes.ofUInt32 told.2)

theorem hashOutputs_eq : tx.hashOutputs = tx'.hashOutputs := by
  unfold hashOutputs
  rw [h.outputs]

theorem legacyDigest_eq (redeem : Option Script) :
    tx.legacyDigest fetch index redeem = tx'.legacyDigest fetch index redeem := by
  unfold legacyDigest legacyPreimage
  simp only [h.input_eq, h.testnet, h.signedInputs_eq, h.version, h.outputs, h.lockTime,
    h.length_inputs_eq]

theorem witnessDigest_eq (redeem witnessScript : Option Script) :
    tx.witnessDigest fetch index redeem witnessScript =
      tx'.witnessDigest fetch index redeem witnessScript := by
  have hwhole : tx.outPointsAndSequences = tx'.outPointsAndSequences := by
    unfold outPointsAndSequences
    rw [h.hashOutPoints_eq, h.hashSequences_eq]
  have houtputs : tx.outputsHash = tx'.outputsHash := by
    unfold outputsHash
    rw [h.hashOutputs_eq]
  have hcode : tx.witnessCode fetch = tx'.witnessCode fetch := by
    unfold witnessCode
    rw [h.testnet]
  unfold witnessDigest witnessPreimage
  simp only [h.input_eq, h.testnet, h.version, h.lockTime, hwhole, houtputs, hcode]

theorem selectDigest_eq (i : Input) (locking : Script) :
    tx.selectDigest fetch index i locking = tx'.selectDigest fetch index i locking := by
  unfold selectDigest
  simp only [h.legacyDigest_eq, h.witnessDigest_eq]

theorem inputDigest_eq : tx.inputDigest fetch index = tx'.inputDigest fetch index := by
  unfold inputDigest
  simp only [h.input_eq, h.testnet, h.selectDigest_eq]

theorem verifyInput_eq :
    tx.verifyInput scheme fetch index = tx'.verifyInput scheme fetch index := by
  unfold verifyInput context
  simp only [h.input_eq, h.testnet, h.selectDigest_eq, h.version, h.lockTime]

theorem signedScript_eq (secret : scheme.Secret) (compressed : Bool) :
    tx.signedScript scheme fetch index secret compressed =
      tx'.signedScript scheme fetch index secret compressed := by
  unfold signedScript
  simp only [h.input_eq, h.testnet, h.legacyDigest_eq]

end AlikeAt

/-- An input that spends a key hash is verified without the hashes that are kept. -/
theorem exists_verifyInput_keyHash {i : Input} {locking : Script} {h : FixedBytes 20}
    (scheme : SignatureScheme) (hs : tx.Spends fetch index i locking)
    (ht : locking.template = .keyHash h) :
    ∃ r, tx.verifyInput scheme fetch index = ofExcept r := by
  refine ⟨do
    let z ← tx.legacyDigest fetch index none
    ((tx.context scheme i (.legacy z)).evaluate (i.script ++ locking)).mapError .eval, ?_⟩
  simp only [verifyInput, hs.input_eq, hs.locking_eq, selectDigest, ht, ofExcept, pure_bind]
  cases tx.legacyDigest fetch index none <;> rfl

/-- Signing puts a script in place just if a key hash is spent and its plain digest is there. -/
theorem signedScript_eq_ok_iff {secret : scheme.Secret} {compressed : Bool} {script : Script} :
    tx.signedScript scheme fetch index secret compressed = .ok script ↔
      ∃ i h z, tx.Spends fetch index i (Script.payToKeyHash h) ∧
        tx.legacyDigest fetch index none = .ok z ∧
          Draft.unlockingScript scheme secret compressed z = script := by
  simp only [signedScript, Except.bind_eq_ok_iff]
  constructor
  · intro hall
    obtain ⟨i, hi, locking, hlocking, hall⟩ := hall
    split at hall
    next h ht =>
      obtain rfl := Script.template_eq_keyHash_iff.mp ht
      simp only [Except.bind_eq_ok_iff, Except.pure_eq_ok_iff] at hall
      obtain ⟨z, hz, hscript⟩ := hall
      exact ⟨i, h, z, ⟨hi, hlocking⟩, hz, hscript⟩
    next => simp [throw, throwThe, MonadExceptOf.throw] at hall
  · intro hall
    obtain ⟨i, h, z, hs, hz, hscript⟩ := hall
    refine ⟨i, hs.input_eq, _, hs.locking_eq, ?_⟩
    simp only [Script.template_eq_keyHash_iff.mpr rfl, hz, Except.bind_eq_ok_iff,
      Except.pure_eq_ok_iff]
    exact ⟨z, rfl, hscript⟩

end Transaction

namespace Draft

variable {scheme : SignatureScheme} {fetch : Fetcher} {index : Nat}

theorem perform_signInput_eq {secret : scheme.Secret} {compressed : Bool} {d d' : Draft}
    {r : Except TxError Bool}
    (h : signInput scheme fetch index secret compressed d = outcome r d') :
    (Call.signInput index secret compressed).perform fetch d = (r.map Answer.verdict, d') := by
  have hrun : (Call.signInput index secret compressed).run fetch d =
      outcome (r.map Answer.verdict) d' := by
    show EStateM.map Answer.verdict (signInput scheme fetch index secret compressed) d = _
    unfold EStateM.map
    rw [h]
    cases r <;> rfl
  unfold Call.perform
  rw [hrun]
  cases r <;> rfl

/-- Signing an input answers one thing and does one thing to that input, in all transactions that
are alike there. Nothing else changes, the hashes that are kept neither. -/
structure Signing (fetch : Fetcher) (index : Nat) (secret : scheme.Secret) (compressed : Bool)
    (tx : Transaction) (r : Except TxError Bool) (f : Input → Input) : Prop where
  told : ∀ i, (f i).told = i.told
  perform : ∀ tx' memo, tx.AlikeAt index tx' →
    (Call.signInput index secret compressed).perform fetch ⟨tx', memo⟩ =
      (r.map Answer.verdict, ⟨tx'.modifyInput index f, memo⟩)
  verdict : ∀ valid, r = .ok valid →
    (tx.modifyInput index f).verifyInput scheme fetch index = pure valid

theorem exists_signing (fetch : Fetcher) (index : Nat) (secret : scheme.Secret)
    (compressed : Bool) (tx : Transaction) :
    ∃ r f, Signing fetch index secret compressed tx r f := by
  cases hsigned : tx.signedScript scheme fetch index secret compressed with
  | error e =>
    refine ⟨.error e, id, fun _ => rfl, fun tx' memo halike => ?_, fun valid h => nomatch h⟩
    rw [halike.signedScript_eq] at hsigned
    have hid : tx'.modifyInput index id = tx' := by
      simp [Transaction.modifyInput]
    rw [hid]
    exact perform_signInput_eq (by simp only [signInput_eq, hsigned, outcome])
  | ok script =>
    have hf : ∀ i : Input, ({ i with script } : Input).told = i.told := fun _ => rfl
    obtain ⟨i, k, _, hs, -⟩ := Transaction.signedScript_eq_ok_iff.mp hsigned
    have hk := Script.template_eq_keyHash_iff.mpr (Eq.refl (Script.payToKeyHash k))
    have hs := hs.modifyInput (f := fun i => { i with script }) rfl
    obtain ⟨r, hr⟩ := Transaction.exists_verifyInput_keyHash scheme hs hk
    refine ⟨r, _, hf, fun tx' memo halike => perform_signInput_eq ?_, fun valid h => ?_⟩
    · rw [halike.signedScript_eq] at hsigned
      rw [(halike.modifyInput hf).verifyInput_eq] at hr
      simp only [signInput_eq, hsigned]
      exact lift_eq_outcome ((congrFun hr memo).trans (ofExcept_eq_outcome r memo))
    · rw [hr, h]
      rfl

theorem Call.tx_perform {α : Type} {c : Call scheme} {g : α → Answer}
    {f : Transaction → DigestM α} (h : c.run fetch = g <$> lift f) (d : Draft) :
    (c.perform fetch d).2.tx = d.tx := by
  have hrun : c.run fetch d = EStateM.map g (lift f) d := congrFun h d
  unfold perform
  rw [hrun]
  unfold EStateM.map lift
  cases f d.tx d.memo <;> rfl

/-- The input that a call signs. -/
def Call.signs? : Call scheme → Option Nat
  | .signInput index _ _ => some index
  | _ => none

theorem Call.alikeAt_perform (fetch : Fetcher) {c : Call scheme} (hc : c.signs? ≠ some index)
    (d : Draft) : d.tx.AlikeAt index (c.perform fetch d).2.tx := by
  cases c with
  | signInput other secret compressed =>
    obtain ⟨r, f, hs⟩ := exists_signing fetch other secret compressed d.tx
    have hne : other ≠ index := fun heq => hc (congrArg some heq)
    rw [hs.perform d.tx d.memo (.refl other d.tx)]
    exact Transaction.alikeAt_modifyInput hs.told hne d.tx
  | legacyDigest | witnessDigest | wholeHashes | inputDigest | verifyInput | verify =>
    rw [Call.tx_perform rfl d]
    exact .refl index d.tx

/-- Makes calls on one draft, in order, whatever they answer. -/
def performAll (fetch : Fetcher) (calls : List (Call scheme)) :
    StateM Draft (List (Except TxError Answer)) :=
  calls.mapM (Call.perform fetch)

@[simp] theorem performAll_nil (fetch : Fetcher) (d : Draft) :
    performAll fetch ([] : List (Call scheme)) d = ([], d) := rfl

@[simp] theorem performAll_cons (fetch : Fetcher) (c : Call scheme) (calls : List (Call scheme))
    (d : Draft) : performAll fetch (c :: calls) d =
      ((c.perform fetch d).1 :: (performAll fetch calls (c.perform fetch d).2).1,
        (performAll fetch calls (c.perform fetch d).2).2) := by
  unfold performAll
  rw [List.mapM_cons]
  rfl

theorem alikeAt_performAll (fetch : Fetcher) {calls : List (Call scheme)}
    (hcalls : ∀ c ∈ calls, c.signs? ≠ some index) (d : Draft) :
    d.tx.AlikeAt index (performAll fetch calls d).2.tx := by
  induction calls generalizing d with
  | nil => exact .refl index d.tx
  | cons c calls ih =>
    rw [List.forall_mem_cons] at hcalls
    rw [performAll_cons]
    exact (Call.alikeAt_perform fetch hcalls.1 d).trans (ih hcalls.2 _)

theorem performAll_signInput_comm (fetch : Fetcher) {i j : Nat} (hij : i ≠ j)
    (secret secret' : scheme.Secret) (compressed compressed' : Bool) (d : Draft) :
    ∃ x y d',
      performAll fetch [.signInput i secret compressed, .signInput j secret' compressed'] d =
        ([x, y], d') ∧
      performAll fetch [.signInput j secret' compressed', .signInput i secret compressed] d =
        ([y, x], d') := by
  obtain ⟨r, f, hi⟩ := exists_signing fetch i secret compressed d.tx
  obtain ⟨r', g, hj⟩ := exists_signing fetch j secret' compressed' d.tx
  -- Whichever signature is made second finds a transaction that is alike at its own input.
  have hfirst := hi.perform d.tx d.memo (.refl i d.tx)
  have hfirst' := hj.perform d.tx d.memo (.refl j d.tx)
  have hsecond := hj.perform _ d.memo (Transaction.alikeAt_modifyInput hi.told hij d.tx)
  have hsecond' := hi.perform _ d.memo (Transaction.alikeAt_modifyInput hj.told hij.symm d.tx)
  have hcomm : (d.tx.modifyInput j g).modifyInput i f = (d.tx.modifyInput i f).modifyInput j g := by
    simp only [Transaction.modifyInput, List.modify_modify_ne f g d.tx.inputs hij]
  refine ⟨r.map Answer.verdict, r'.map Answer.verdict,
    ⟨(d.tx.modifyInput i f).modifyInput j g, d.memo⟩, ?_, ?_⟩
  · simp only [performAll_cons, performAll_nil, hfirst, hsecond]
  · simp only [performAll_cons, performAll_nil, hfirst', hsecond', hcomm]

/-- An input that verified when it was signed verifies in all transactions that are alike there. -/
theorem verifyInput_of_signed {secret : scheme.Secret} {compressed : Bool} {d d' : Draft}
    (hsigned : (Call.signInput index secret compressed).perform fetch d = (.ok (.verdict true), d'))
    {tx : Transaction} (halike : d'.tx.AlikeAt index tx) :
    tx.verifyInput scheme fetch index = pure true := by
  obtain ⟨r, f, hs⟩ := exists_signing fetch index secret compressed d.tx
  have hperform := (hs.perform d.tx d.memo (.refl index d.tx)).symm.trans hsigned
  obtain ⟨hr, rfl⟩ := Prod.mk.inj hperform
  cases r with
  | error e => simp [Except.map] at hr
  | ok valid =>
    obtain rfl : valid = true := Answer.verdict.inj (Except.ok.inj hr)
    rw [← halike.verifyInput_eq]
    exact hs.verdict true rfl

/-- Inputs are verified and signed apart from each other. Whatever script and witness an input is
given, the digests and the verdict of another stay as they are, with the hashes that are kept.
Signatures of the two can be made in either order, with the same answers and the same draft, and an
input that verified when it was signed verifies after any calls that do not sign it again. -/
theorem inputs_independent (scheme : SignatureScheme) (fetch : Fetcher) {i j : Nat} (hij : i ≠ j) :
    (∀ (tx : Transaction) (script : Script) (witness : List Bytes),
      (∀ redeem, (tx.withUnlocking j script witness).legacyDigest fetch i redeem =
        tx.legacyDigest fetch i redeem) ∧
      (∀ redeem witnessScript,
        (tx.withUnlocking j script witness).witnessDigest fetch i redeem witnessScript =
          tx.witnessDigest fetch i redeem witnessScript) ∧
      (tx.withUnlocking j script witness).inputDigest fetch i = tx.inputDigest fetch i ∧
      (tx.withUnlocking j script witness).verifyInput scheme fetch i =
        tx.verifyInput scheme fetch i) ∧
    (∀ (secret secret' : scheme.Secret) (compressed compressed' : Bool) (d : Draft),
      ∃ x y d',
        performAll fetch [.signInput i secret compressed, .signInput j secret' compressed'] d =
          ([x, y], d') ∧
        performAll fetch [.signInput j secret' compressed', .signInput i secret compressed] d =
          ([y, x], d')) ∧
    ∀ (secret : scheme.Secret) (compressed : Bool) (d d' : Draft),
      (Call.signInput i secret compressed).perform fetch d = (.ok (.verdict true), d') →
        ∀ calls : List (Call scheme), (∀ c ∈ calls, c.signs? ≠ some i) → ∀ memo,
          (performAll fetch calls d').2.tx.verifyInput scheme fetch i memo = .ok true memo := by
  refine ⟨fun tx script witness => ?_, performAll_signInput_comm fetch hij,
    fun secret compressed d d' hsigned calls hcalls memo => ?_⟩
  · have hkeeps : ∀ i : Input, ({ i with script, witness } : Input).told = i.told := fun _ => rfl
    have halike : tx.AlikeAt i (tx.withUnlocking j script witness) :=
      Transaction.alikeAt_modifyInput hkeeps hij.symm tx
    exact ⟨fun _ => (halike.legacyDigest_eq _).symm, fun _ _ => (halike.witnessDigest_eq _ _).symm,
      halike.inputDigest_eq.symm, halike.verifyInput_eq.symm⟩
  · have halike := alikeAt_performAll fetch hcalls d'
    exact congrFun (verifyInput_of_signed hsigned halike) memo

/-- Signing with the nonce one, which hashes nothing. -/
def nonceOne : SignatureScheme :=
  { Secp256k1.scheme with
    sign := fun secret z => (Secp256k1.signWith? secret z 1).getD ⟨0, 0⟩ }

/-- A source in which every transaction has two outputs, locked by the hashes of two keys. -/
def holdingTwo : Fetcher := fun _ testnet =>
  .ok (Transaction.make 1 [] (
    [Context.oneSecret, Context.twoSecret].map fun secret =>
      ⟨100000, Script.payToKeyHash (hash160 (Context.keyOf secret))⟩) 0 testnet)

/-- A transaction that spends two outputs, not signed yet. -/
def spendingTwo : Transaction :=
  Transaction.make 1 [⟨⟨TxId.zero, 0⟩, [], 0xffffffff, []⟩, ⟨⟨TxId.zero, 1⟩, [], 0xffffffff, []⟩]
    [⟨190000, [.op .pushOne]⟩] 0 false

theorem spendingTwo_signed : 0 ≠ 1 ∧ ∃ d,
    (Call.signInput 0 Context.oneSecret true : Call nonceOne).perform holdingTwo
        (fresh spendingTwo) = (.ok (.verdict true), d) ∧
      ∀ memo, (performAll holdingTwo
        [(Call.signInput 1 Context.twoSecret true : Call nonceOne)] d).2.tx.verifyInput
          nonceOne holdingTwo 0 memo = .ok true memo := by
  have hrun : (signInput nonceOne holdingTwo 0 Context.oneSecret true).run'
      (fresh spendingTwo) = some true := by decide +kernel
  obtain ⟨d, hd⟩ := exists_ok_of_run hrun
  have hsigned := perform_signInput_eq (r := .ok true) hd
  have hij : 0 ≠ 1 := by decide
  obtain ⟨-, -, hstays⟩ := inputs_independent nonceOne holdingTwo hij
  exact ⟨hij, d, hsigned, hstays _ _ _ _ hsigned _ (by simp [Call.signs?])⟩

end Draft

end BitcoinSpend

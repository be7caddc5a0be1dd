import BitcoinSpend.Proofs.Machine.Witness
import BitcoinSpend.Proofs.Transaction.Spent
import BitcoinSpend.Transaction.Verify

namespace BitcoinSpend

namespace Script

theorem keyHash?_eq_some_iff {s : Script} {h : FixedBytes 20} :
    s.keyHash? = some h ↔ s = payToKeyHash h := by
  constructor
  · intro hs
    unfold keyHash? at hs
    split at hs
    next =>
      split at hs
      next hops =>
        obtain ⟨rfl, rfl, rfl, rfl⟩ := hops
        rw [← FixedBytes.ofBytes?_eq_some_iff.mp hs]
        rfl
      next => simp at hs
    next => simp at hs
  · intro heq
    subst heq
    simp [keyHash?, payToKeyHash]

theorem witnessProgram?_eq_some_iff {s : Script} {program : Bytes} :
    s.witnessProgram? = some program ↔ s = [.op .zero, .data program] := by
  constructor
  · intro hs
    unfold witnessProgram? at hs
    split at hs
    next =>
      split at hs
      next hop => cases Option.some.inj hs; rw [hop]
      next => simp at hs
    next => simp at hs
  · intro heq
    subst heq
    rfl

theorem witnessKeyHash?_eq_some_iff {s : Script} {h : FixedBytes 20} :
    s.witnessKeyHash? = some h ↔ s = payToWitnessKeyHash h := by
  simp only [witnessKeyHash?, Option.bind_eq_some_iff, witnessProgram?_eq_some_iff,
    FixedBytes.ofBytes?_eq_some_iff, payToWitnessKeyHash]
  constructor
  · intro hall
    obtain ⟨_, rfl, rfl⟩ := hall
    rfl
  · intro hs
    exact ⟨_, hs, rfl⟩

theorem witnessScriptHash?_eq_some_iff {s : Script} {h : FixedBytes 32} :
    s.witnessScriptHash? = some h ↔ s = payToWitnessScriptHash h := by
  simp only [witnessScriptHash?, Option.bind_eq_some_iff, witnessProgram?_eq_some_iff,
    FixedBytes.ofBytes?_eq_some_iff, payToWitnessScriptHash]
  constructor
  · intro hall
    obtain ⟨_, rfl, rfl⟩ := hall
    rfl
  · intro hs
    exact ⟨_, hs, rfl⟩

theorem template_eq_keyHash_iff {s : Script} {h : FixedBytes 20} :
    s.template = .keyHash h ↔ s = payToKeyHash h := by
  constructor
  · intro ht
    unfold template at ht
    split at ht
    next hs => cases ht; exact keyHash?_eq_some_iff.mp hs
    all_goals simp at ht
  · intro heq
    subst heq
    simp [template, keyHash?_eq_some_iff.mpr rfl]

theorem template_eq_scriptHash_iff {s : Script} {h : FixedBytes 20} :
    s.template = .scriptHash h ↔ s = payToScriptHash h := by
  constructor
  · intro ht
    unfold template at ht
    split at ht
    next => simp at ht
    next hs => cases ht; exact scriptHash?_eq_some_iff.mp hs
    all_goals simp at ht
  · intro heq
    subst heq
    simp [template, keyHash?, payToScriptHash, scriptHash?]

theorem template_eq_witnessKeyHash_iff {s : Script} {h : FixedBytes 20} :
    s.template = .witnessKeyHash h ↔ s = payToWitnessKeyHash h := by
  constructor
  · intro ht
    unfold template at ht
    split at ht
    next => simp at ht
    next => simp at ht
    next hs => cases ht; exact witnessKeyHash?_eq_some_iff.mp hs
    all_goals simp at ht
  · intro heq
    subst heq
    have hs := witnessKeyHash?_eq_some_iff.mpr (Eq.refl (payToWitnessKeyHash h))
    simp only [payToWitnessKeyHash] at hs
    simp [template, keyHash?, scriptHash?, payToWitnessKeyHash, hs]

theorem template_eq_witnessScriptHash_iff {s : Script} {h : FixedBytes 32} :
    s.template = .witnessScriptHash h ↔ s = payToWitnessScriptHash h := by
  constructor
  · intro ht
    unfold template at ht
    split at ht
    next => simp at ht
    next => simp at ht
    next => simp at ht
    next hs => cases ht; exact witnessScriptHash?_eq_some_iff.mp hs
    next => simp at ht
  · intro heq
    subst heq
    have hs := witnessScriptHash?_eq_some_iff.mpr (Eq.refl (payToWitnessScriptHash h))
    have hk : (payToWitnessScriptHash h).witnessKeyHash? = none := by
      simp [witnessKeyHash?, witnessProgram?, payToWitnessScriptHash, FixedBytes.ofBytes?,
        h.length_eq]
    simp only [payToWitnessScriptHash] at hs hk
    simp [template, keyHash?, scriptHash?, payToWitnessScriptHash, hs, hk]

@[simp] theorem template_payToWitnessKeyHash (h : FixedBytes 20) :
    (payToWitnessKeyHash h).template = .witnessKeyHash h :=
  template_eq_witnessKeyHash_iff.mpr rfl

@[simp] theorem template_payToWitnessScriptHash (h : FixedBytes 32) :
    (payToWitnessScriptHash h).template = .witnessScriptHash h :=
  template_eq_witnessScriptHash_iff.mpr rfl

/-- All templates start with an opcode. -/
theorem template_data_cons (bs : Bytes) (s : Script) :
    template (.data bs :: s) = .nonstandard := by
  cases ht : template (.data bs :: s) with
  | nonstandard => rfl
  | keyHash h => cases template_eq_keyHash_iff.mp ht
  | scriptHash h => cases template_eq_scriptHash_iff.mp ht
  | witnessKeyHash h => cases template_eq_witnessKeyHash_iff.mp ht
  | witnessScriptHash h => cases template_eq_witnessScriptHash_iff.mp ht

/-- A script that stands for its witness. -/
def IsWitnessProgram (s : Script) : Prop :=
  (∃ h, s = payToWitnessKeyHash h) ∨ ∃ h, s = payToWitnessScriptHash h

end Script

/-- The input at a position and the script that locks what it spends. -/
structure Transaction.Spends (tx : Transaction) (fetch : Fetcher) (index : Nat) (i : Input)
    (locking : Script) : Prop where
  input_eq : tx.input index = .ok i
  locking_eq : i.locking fetch tx.testnet = .ok locking

theorem Input.redeemScript_eq_ok_iff {i : Input} {redeem : Script} :
    i.redeemScript = .ok redeem ↔
      ∃ front body, i.script = front ++ [.data body] ∧ Script.ofBody body = .ok redeem := by
  unfold redeemScript
  cases hs : i.script using List.reverseRecOn with
  | nil => simp [embeddedScript]
  | append_singleton front c =>
    cases c with
    | op code => simp [embeddedScript]
    | data body =>
      cases hb : Script.ofBody body <;> simp [embeddedScript, hb]

namespace Transaction

variable {tx : Transaction} {scheme : SignatureScheme} {fetch : Fetcher} {index : Nat} {i : Input}
  {locking : Script} {memo memo' : DigestMemo}

/-- The states that verifying an input goes through, once its digest is chosen. -/
def visited (tx : Transaction) (scheme : SignatureScheme) (i : Input) (locking : Script)
    (d : InputDigest) : List State :=
  (tx.context scheme i d).visited (i.script ++ locking)

theorem verifyInput_eq_ok_iff (hs : tx.Spends fetch index i locking) {b : Bool} :
    tx.verifyInput scheme fetch index memo = .ok b memo' ↔
      ∃ d, tx.selectDigest fetch index i locking memo = .ok d memo' ∧
        (tx.context scheme i d).evaluate (i.script ++ locking) = .ok b := by
  simp [verifyInput, hs.input_eq, hs.locking_eq]

/-- A locking script that stands for no other script is spent over the plain digest. -/
theorem selectDigest_plain {d : InputDigest}
    (ht : locking.template = .nonstandard ∨ ∃ h, locking.template = .keyHash h) :
    tx.selectDigest fetch index i locking memo = .ok d memo' ↔
      ∃ z, tx.legacyDigest fetch index none = .ok z ∧ d = .legacy z ∧ memo' = memo := by
  have hselect : tx.selectDigest fetch index i locking =
      InputDigest.legacy <$> ofExcept (tx.legacyDigest fetch index none) := by
    rcases ht with ht | ⟨h, ht⟩
    · simp only [selectDigest, ht]
    · simp only [selectDigest, ht]
  simp only [hselect, map_eq_ok_iff, ofExcept_eq_ok_iff]
  constructor
  · intro hall
    obtain ⟨z, ⟨hz, rfl⟩, rfl⟩ := hall
    exact ⟨z, hz, rfl, rfl⟩
  · intro hall
    obtain ⟨z, hz, rfl, rfl⟩ := hall
    exact ⟨z, ⟨hz, rfl⟩, rfl⟩

theorem selectDigest_keyHash {h : FixedBytes 20} {d : InputDigest}
    (ht : locking.template = .keyHash h) :
    tx.selectDigest fetch index i locking memo = .ok d memo' ↔
      ∃ z, tx.legacyDigest fetch index none = .ok z ∧ d = .legacy z ∧ memo' = memo :=
  selectDigest_plain (.inr ⟨h, ht⟩)

theorem selectDigest_witnessKeyHash {h : FixedBytes 20} {d : InputDigest}
    (ht : locking.template = .witnessKeyHash h)
    (hd : tx.selectDigest fetch index i locking memo = .ok d memo') :
    ∃ z, tx.witnessDigest fetch index none none memo = .ok z memo' ∧ d = .segwit z := by
  simp only [selectDigest, ht, map_eq_ok_iff] at hd
  obtain ⟨z, hz, rfl⟩ := hd
  exact ⟨z, hz, rfl⟩

theorem selectDigest_witnessScriptHash {h : FixedBytes 32} {d : InputDigest}
    (ht : locking.template = .witnessScriptHash h)
    (hd : tx.selectDigest fetch index i locking memo = .ok d memo') : ∃ z, d = .segwit z := by
  simp only [selectDigest, ht, bind_eq_ok_iff, map_eq_ok_iff] at hd
  obtain ⟨_, _, _, z, _, rfl⟩ := hd
  exact ⟨z, rfl⟩

/-- The redeem script decides whether the witness of an input takes part, before it is compared with
the script hash. -/
theorem selectDigest_scriptHash {h : FixedBytes 20} {d : InputDigest}
    (ht : locking.template = .scriptHash h)
    (hd : tx.selectDigest fetch index i locking memo = .ok d memo') :
    ∃ redeem, i.redeemScript = .ok redeem ∧ (d.usesWitness = true → redeem.IsWitnessProgram) := by
  simp only [selectDigest, ht, bind_eq_ok_iff, ofExcept_eq_ok_iff] at hd
  obtain ⟨redeem, _, ⟨hredeem, rfl⟩, hd⟩ := hd
  refine ⟨redeem, hredeem, fun hw => ?_⟩
  cases hk : redeem.template with
  | witnessKeyHash k => exact Or.inl ⟨k, Script.template_eq_witnessKeyHash_iff.mp hk⟩
  | witnessScriptHash k => exact Or.inr ⟨k, Script.template_eq_witnessScriptHash_iff.mp hk⟩
  | _ =>
    simp only [hk] at hd
    obtain ⟨z, _, rfl⟩ := map_eq_ok_iff.mp hd
    simp [InputDigest.legacy] at hw

/-- The witness digest of an input is there once its script code and the hash of all outputs are. -/
theorem exists_witnessDigest (hs : tx.Spends fetch index i locking) {redeem script : Option Script}
    {code : Bytes} {outputs : Digest} (hcode : tx.witnessCode fetch i redeem script = .ok code)
    (hout : tx.hashOutputs = .ok outputs) (memo : DigestMemo) :
    ∃ z memo', tx.witnessDigest fetch index redeem script memo = .ok z memo' := by
  obtain ⟨spent, hspent, -⟩ := Input.locking_eq_ok_iff.mp hs.locking_eq
  have hamount := Input.amount_eq_ok_iff.mpr ⟨spent, hspent, rfl⟩
  obtain ⟨hashes, memo₁, hhashes⟩ : ∃ hashes memo₁,
      tx.outPointsAndSequences memo = .ok hashes memo₁ := by
    unfold outPointsAndSequences
    split <;> exact ⟨_, _, rfl⟩
  obtain ⟨o, memo₂, ho⟩ : ∃ o memo₂, tx.outputsHash memo₁ = .ok o memo₂ := by
    unfold outputsHash
    simp only [hout]
    split <;> exact ⟨_, _, rfl⟩
  refine ⟨hash256 (tx.witnessPreimage i code spent.amount hashes.1 hashes.2 o), memo₂, ?_⟩
  simp only [witnessDigest, bind_eq_ok_iff, ofExcept_eq_ok_iff, pure_eq_ok_iff]
  exact ⟨i, memo, ⟨hs.input_eq, rfl⟩, hashes, memo₁, hhashes, code, memo₁, ⟨hcode, rfl⟩,
    spent.amount, memo₁, ⟨hamount, rfl⟩, o, memo₂, ho, rfl, rfl⟩

theorem exists_bytes_payToKeyHash (h : FixedBytes 20) :
    ∃ code, (Script.payToKeyHash h).bytes = .ok code := by
  simp [Script.bytes, Script.body, Command.encode, Script.payToKeyHash, h.length_eq, bind,
    Except.bind, pure, Except.pure]

theorem exists_keyHashCode (h : FixedBytes 20) :
    ∃ code, keyHashCode (Script.payToWitnessKeyHash h) = .ok code := by
  obtain ⟨code, hcode⟩ := exists_bytes_payToKeyHash h
  refine ⟨code, ?_⟩
  simp [keyHashCode, Script.witnessKeyHash?_eq_some_iff.mpr rfl, hcode]

theorem exists_selectDigest_witnessScriptHash (hs : tx.Spends fetch index i locking)
    {h : FixedBytes 32} (ht : locking.template = .witnessScriptHash h) {script : Script}
    {code : Bytes} {outputs : Digest} (hscript : i.witnessScript = .ok script)
    (hcode : script.bytes = .ok code) (hout : tx.hashOutputs = .ok outputs) (memo : DigestMemo) :
    ∃ z memo', tx.selectDigest fetch index i locking memo = .ok (.segwit z) memo' := by
  have hcode : tx.witnessCode fetch i none (some script) = .ok code := by simp [witnessCode, hcode]
  obtain ⟨z, memo', hz⟩ := exists_witnessDigest hs hcode hout memo
  exact ⟨z, memo', by simp [selectDigest, ht, hscript, hz]⟩

/-- A redeem script that is a witness program has a witness digest chosen for it, with any witness
script that can be read and written. -/
theorem exists_selectDigest_scriptHash (hs : tx.Spends fetch index i locking) {h : FixedBytes 20}
    (ht : locking.template = .scriptHash h) {redeem script : Script} {code : Bytes}
    {outputs : Digest} (hredeem : i.redeemScript = .ok redeem) (hp : redeem.IsWitnessProgram)
    (hscript : i.witnessScript = .ok script) (hcode : script.bytes = .ok code)
    (hout : tx.hashOutputs = .ok outputs) (memo : DigestMemo) :
    ∃ z memo', tx.selectDigest fetch index i locking memo = .ok (.segwit z) memo' := by
  rcases hp with ⟨k, rfl⟩ | ⟨k, rfl⟩
  · obtain ⟨keyCode, hkey⟩ := exists_keyHashCode k
    have hcode : tx.witnessCode fetch i (some (Script.payToWitnessKeyHash k)) none =
        .ok keyCode := hkey
    obtain ⟨z, memo', hz⟩ := exists_witnessDigest hs hcode hout memo
    exact ⟨z, memo', by simp [selectDigest, ht, hredeem, hz]⟩
  · have hcode : tx.witnessCode fetch i none (some script) = .ok code := by
      simp [witnessCode, hcode]
    obtain ⟨z, memo', hz⟩ := exists_witnessDigest hs hcode hout memo
    exact ⟨z, memo', by simp [selectDigest, ht, hredeem, hscript, hz]⟩

/-- The transaction with one input changed. -/
def modifyInput (tx : Transaction) (index : Nat) (f : Input → Input) : Transaction :=
  { tx with inputs := tx.inputs.modify index f }

theorem Spends.modifyInput (hs : tx.Spends fetch index i locking) {f : Input → Input}
    (hf : (f i).outPoint = i.outPoint) :
    (tx.modifyInput index f).Spends fetch index (f i) locking := by
  constructor
  · have hi := hs.input_eq
    unfold input at hi ⊢
    split at hi
    next j hj =>
      cases Except.ok.inj hi
      simp [Transaction.modifyInput, hj]
    next => simp at hi
  · have hlocking := hs.locking_eq
    unfold Input.locking Input.spent at hlocking ⊢
    rw [hf]
    exact hlocking

/-- The transaction with another script and another witness on one input. -/
def withUnlocking (tx : Transaction) (index : Nat) (script : Script) (witness : List Bytes) :
    Transaction :=
  { tx with inputs := tx.inputs.modify index fun i => { i with script, witness } }

theorem Spends.withUnlocking (hs : tx.Spends fetch index i locking) (script : Script)
    (witness : List Bytes) :
    (tx.withUnlocking index script witness).Spends fetch index { i with script, witness }
      locking :=
  hs.modifyInput (f := fun i => { i with script, witness }) rfl

/-- An input that spends with a script and a witness. -/
def spendingInput (script : Script) (witness : List Bytes) : Input :=
  ⟨⟨⟨FixedBytes.zero 32⟩, 0⟩, script, 0xffffffff, witness⟩

/-- A transaction that spends one output. -/
def spending (script : Script) (witness : List Bytes) : Transaction :=
  make 1 [spendingInput script witness] [⟨90000, [.op .pushOne]⟩] 0 false

/-- A source in which every transaction has one output, locked by a script. -/
def holding (locking : Script) : Fetcher := fun _ testnet =>
  .ok (make 1 [] [⟨100000, locking⟩] 0 testnet)

theorem spending_spends (script locking : Script) (witness : List Bytes) :
    (spending script witness).Spends (holding locking) 0 (spendingInput script witness) locking :=
  ⟨rfl, rfl⟩

theorem exists_legacyDigest_spending {code : Bytes} (hcode : locking.bytes = .ok code)
    (script : Script) (witness : List Bytes) :
    ∃ z, (spending script witness).legacyDigest (holding locking) 0 none = .ok z := by
  have hone : Script.bytes [.op .pushOne] = .ok [1, 0x51] := rfl
  simp [legacyDigest, legacyPreimage, signedInputs, input, spending, spendingInput, holding, make,
    Input.locking, Input.spent, OutPoint.output, OutPoint.source, joinBytes, Input.bytesWith,
    Output.bytes, hcode, hone, bind, Except.bind, pure, Except.pure, Except.mapError]

theorem exists_verifyInput_of_run {b : Bool}
    (h : (tx.verifyInput scheme fetch index).run' memo = some b) :
    ∃ memo', tx.verifyInput scheme fetch index memo = .ok b memo' :=
  exists_ok_of_run h

end Transaction

end BitcoinSpend

import BitcoinSpend.Proofs.Spend.Verify
import BitcoinSpend.Proofs.Transaction.Canonical
import BitcoinSpend.Proofs.Transaction.Memo

namespace BitcoinSpend

theorem joinBytes_eq_flatMap {α : Type} {f : α → Except ScriptError Bytes} {g : α → Bytes}
    (h : ∀ x, f x = .ok (g x)) (xs : List α) : joinBytes f xs = .ok (xs.flatMap g) := by
  induction xs with
  | nil => rfl
  | cons x xs ih => simp [joinBytes, h, ih, bind, Except.bind, pure, Except.pure]

/-- The output is locked by the hash of a witness script, or by the hash of a redeem script that the
input pushes last and that is locked so. -/
def Input.AsksWitnessScript (i : Input) (locking : Script) : Prop :=
  (∃ h, locking = Script.payToWitnessScriptHash h) ∨
    ∃ h k front r, locking = Script.payToScriptHash h ∧ i.script = front ++ [.data r] ∧
      Script.ofBody r = .ok (Script.payToWitnessScriptHash k)

namespace Transaction

variable {tx : Transaction} {fetch : Fetcher} {index : Nat} {i : Input} {spent : Output}
  {locking : Script}

/-- What the plain digest of an input hashes, with the body of its script code and the outputs as
bytes. -/
def plainLayout (tx : Transaction) (index : Nat) (code outputs : Bytes) : Bytes :=
  Bytes.ofInt32 tx.version ++ Varint.encode tx.inputs.length ++
    (tx.inputs.zipIdx.flatMap fun (i, n) => i.layout (if n = index then code else [])) ++
    Varint.encode tx.outputs.length ++ outputs ++ Bytes.ofUInt32 tx.lockTime ++ signAllWord

/-- A result that takes the outputs as bytes, and fails as they do. -/
def overOutputs {α : Type} (tx : Transaction) (f : Bytes → α) : Except TxError α :=
  f <$> (joinBytes Output.bytes tx.outputs).mapError fun e => .wire (.script e)

theorem legacyDigest_redeem (hi : tx.input index = .ok i) (ws : WireScript) :
    tx.legacyDigest fetch index (some ws.script) =
      tx.overOutputs fun outputs => hash256 (tx.plainLayout index ws.shortest outputs) := by
  have hitem : ∀ x : Input × Nat, Input.bytesWith x.1 (if x.2 = index then ws.script else []) =
      .ok (x.1.layout (if x.2 = index then ws.shortest else [])) := by
    intro x
    by_cases hx : x.2 = index
    · simp [Input.bytesWith, Input.layout, hx, ws.bytes_script, bind, Except.bind, pure,
        Except.pure]
    · have hnil : Script.bytes [] = .ok (Varint.lengthPrefixed []) := rfl
      simp [Input.bytesWith, Input.layout, hx, hnil, bind, Except.bind, pure, Except.pure]
  have hinputs : signedInputs index ws.script tx.inputs = .ok (tx.inputs.zipIdx.flatMap
      fun (i, n) => i.layout (if n = index then ws.shortest else [])) :=
    joinBytes_eq_flatMap hitem _
  simp only [legacyDigest, legacyPreimage, hi, overOutputs, plainLayout, bind, Except.bind, pure,
    Except.pure, hinputs]
  cases joinBytes Output.bytes tx.outputs <;> rfl

theorem witnessText_script (hi : tx.input index = .ok i)
    (hspent : i.spent fetch tx.testnet = .ok spent) (ws : WireScript) :
    tx.witnessText fetch index none (some ws.script) = tx.overOutputs fun outputs =>
      tx.witnessPreimage i (Varint.lengthPrefixed ws.shortest) spent.amount tx.hashOutPoints
        tx.hashSequences (hash256 outputs) := by
  have hamount := Input.amount_eq_ok_iff.mpr ⟨spent, hspent, rfl⟩
  simp only [witnessText, hi, witnessCode, ws.bytes_script, hashOutputs, overOutputs, bind,
    Except.bind, Except.mapError, hamount]
  cases joinBytes Output.bytes tx.outputs <;> rfl

theorem inputDigest_eq_selectDigest (hi : tx.input index = .ok i)
    (hspent : i.spent fetch tx.testnet = .ok spent) :
    tx.inputDigest fetch index = tx.selectDigest fetch index i spent.script := by
  have hlocking := Input.locking_eq_ok_iff.mpr ⟨spent, hspent, rfl⟩
  simp only [inputDigest, hi, hlocking, ofExcept, pure_bind]

theorem selectDigest_asksWitnessScript {script : Script} (h : i.AsksWitnessScript locking)
    (hscript : i.witnessScript = .ok script) : tx.selectDigest fetch index i locking =
      InputDigest.segwit <$> tx.witnessDigest fetch index none (some script) := by
  rcases h with ⟨k, rfl⟩ | ⟨h, k, front, r, rfl, hfront, hr⟩
  · simp only [selectDigest, Script.template_payToWitnessScriptHash, hscript, ofExcept, pure_bind]
  · have hredeem := Input.redeemScript_eq_ok_iff.mpr ⟨front, r, hfront, hr⟩
    simp only [selectDigest, Script.template_eq_scriptHash_iff.mpr rfl, hredeem,
      Script.template_payToWitnessScriptHash, hscript, ofExcept, pure_bind]

theorem selectDigest_redeem {h : FixedBytes 20} {redeem : Script}
    (hredeem : i.redeemScript = .ok redeem) (hp : ¬redeem.IsWitnessProgram) :
    tx.selectDigest fetch index i (Script.payToScriptHash h) =
      InputDigest.legacy <$> ofExcept (tx.legacyDigest fetch index (some redeem)) := by
  simp only [selectDigest, Script.template_eq_scriptHash_iff.mpr rfl, hredeem, ofExcept, pure_bind]
  cases hk : redeem.template with
  | witnessKeyHash k => exact absurd (.inl ⟨k, Script.template_eq_witnessKeyHash_iff.mp hk⟩) hp
  | witnessScriptHash k =>
    exact absurd (.inr ⟨k, Script.template_eq_witnessScriptHash_iff.mp hk⟩) hp
  | nonstandard | keyHash k | scriptHash k => rfl

/-- A script that a spend embeds is hashed with every push of it in its shortest form. If the spent
output asks for a witness script, that is the last item of the witness, and the witness digest
hashes it behind its length. If the last push is a redeem script and no witness program, the plain
digest hashes it as the script of the input. Both digests are there if the outputs can be written,
and they hash the bytes that are embedded just if all pushes there have their shortest form. -/
theorem inputDigest_hashes_shortest (hi : tx.input index = .ok i)
    (hspent : i.spent fetch tx.testnet = .ok spent) :
    (∀ item script, i.AsksWitnessScript spent.script → i.witness.getLast? = some item →
      Script.ofBody item = .ok script →
        ∃ ws : WireScript, ws.body = item ∧ ws.script = script ∧
          (ws.shortest = item ↔ ws.IsShortest) ∧
          DigestM.Answers tx (tx.inputDigest fetch index) (tx.overOutputs fun outputs =>
            .segwit (hash256 (tx.witnessPreimage i (Varint.lengthPrefixed ws.shortest) spent.amount
              tx.hashOutPoints tx.hashSequences (hash256 outputs))))) ∧
    ∀ h front r redeem, spent.script = Script.payToScriptHash h → i.script = front ++ [.data r] →
      Script.ofBody r = .ok redeem → ¬redeem.IsWitnessProgram →
        ∃ ws : WireScript, ws.body = r ∧ ws.script = redeem ∧
          (ws.shortest = r ↔ ws.IsShortest) ∧
          DigestM.Answers tx (tx.inputDigest fetch index) (tx.overOutputs fun outputs =>
            .legacy (hash256 (tx.plainLayout index ws.shortest outputs))) := by
  rw [inputDigest_eq_selectDigest hi hspent]
  constructor
  · intro item script hasks hitem hscript
    obtain ⟨ws, rfl, rfl⟩ := Script.ofBody_eq_ok_iff.mp hscript
    refine ⟨ws, rfl, rfl, WireScript.shortest_eq_body_iff, ?_⟩
    have hread : i.witnessScript = .ok ws.script := by
      simp [Input.witnessScript, embeddedScript, hitem, hscript]
    rw [selectDigest_asksWitnessScript hasks hread]
    have hdigest := @answers_witnessDigest tx fetch index none (some ws.script)
    rw [witnessText_script hi hspent] at hdigest
    have hchosen : DigestM.Answers tx _ _ := hdigest.map InputDigest.segwit
    simpa only [overOutputs, Functor.map_map] using hchosen
  · intro h front r redeem hlocking hfront hr hp
    obtain ⟨ws, rfl, rfl⟩ := Script.ofBody_eq_ok_iff.mp hr
    refine ⟨ws, rfl, rfl, WireScript.shortest_eq_body_iff, ?_⟩
    have hredeem := Input.redeemScript_eq_ok_iff.mpr ⟨front, _, hfront, hr⟩
    rw [hlocking, selectDigest_redeem hredeem hp, legacyDigest_redeem hi]
    have hdigest : DigestM.Answers tx _ (tx.overOutputs fun outputs =>
        hash256 (tx.plainLayout index ws.shortest outputs)) := .ofExcept _
    have hchosen : DigestM.Answers tx _ _ := hdigest.map InputDigest.legacy
    simpa only [overOutputs, Functor.map_map] using hchosen

/-- A push of one byte whose length takes a byte of its own. -/
def longPush : Bytes :=
  [76, 1, 0xaa]

/-- The source of an output that is locked by the hash of `longPush` as a witness script. -/
def holdingWitness : Fetcher :=
  holding (Script.payToWitnessScriptHash (Sha256.digest longPush))

/-- The source of an output that is locked by the hash of `longPush` as a redeem script. -/
def holdingRedeem : Fetcher :=
  holding (Script.payToScriptHash (hash160 longPush))

theorem longPush_hashed :
    (∃ ws : WireScript, ws.body = longPush ∧
      DigestM.Answers (spending [] [longPush])
        ((spending [] [longPush]).inputDigest holdingWitness 0)
        ((spending [] [longPush]).overOutputs fun outputs =>
          .segwit (hash256 ((spending [] [longPush]).witnessPreimage (spendingInput [] [longPush])
            (Varint.lengthPrefixed ws.shortest) 100000 (spending [] [longPush]).hashOutPoints
            (spending [] [longPush]).hashSequences (hash256 outputs))))) ∧
    ∃ ws : WireScript, ws.body = longPush ∧
      DigestM.Answers (spending [.data longPush] [])
        ((spending [.data longPush] []).inputDigest holdingRedeem 0)
        ((spending [.data longPush] []).overOutputs fun outputs =>
          .legacy (hash256
            ((spending [.data longPush] []).plainLayout 0 ws.shortest outputs))) := by
  have hread : Script.ofBody longPush = .ok [.data [0xaa]] := rfl
  have hp : ¬Script.IsWitnessProgram [.data [0xaa]] := by
    simp [Script.IsWitnessProgram, Script.payToWitnessKeyHash, Script.payToWitnessScriptHash]
  obtain ⟨hwitness, -⟩ :=
    @inputDigest_hashes_shortest (spending [] [longPush]) holdingWitness 0 _ _ rfl rfl
  obtain ⟨-, hredeem⟩ :=
    @inputDigest_hashes_shortest (spending [.data longPush] []) holdingRedeem 0 _ _ rfl rfl
  obtain ⟨ws, hws, -, -, hanswers⟩ := hwitness longPush _ (.inl ⟨_, rfl⟩) rfl hread
  obtain ⟨ws', hws', -, -, hanswers'⟩ := hredeem _ [] longPush _ rfl rfl hread hp
  exact ⟨⟨ws, hws, hanswers⟩, ws', hws', hanswers'⟩

/-- The bytes that are embedded are not what is hashed, if a push of them is longer than it need
be. -/
theorem longPush_not_hashed :
    (((spending [] [longPush]).inputDigest holdingWitness 0).run' {}).isSome = true ∧
    ((spending [] [longPush]).inputDigest holdingWitness 0).run' {} ≠
      some (.segwit (hash256 ((spending [] [longPush]).witnessPreimage (spendingInput [] [longPush])
        (Varint.lengthPrefixed longPush) 100000 (spending [] [longPush]).hashOutPoints
        (spending [] [longPush]).hashSequences (hash256 (Bytes.ofInt64 90000 ++ [1, 0x51]))))) ∧
    (((spending [.data longPush] []).inputDigest holdingRedeem 0).run' {}).isSome = true ∧
    ((spending [.data longPush] []).inputDigest holdingRedeem 0).run' {} ≠
      some (.legacy (hash256 ((spending [.data longPush] []).plainLayout 0 longPush
        (Bytes.ofInt64 90000 ++ [1, 0x51])))) := by
  refine ⟨?_, ?_, ?_, ?_⟩
  all_goals decide +kernel

end Transaction

end BitcoinSpend

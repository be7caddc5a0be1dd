import BitcoinSpend.Proofs.Spend.KeyHash
import BitcoinSpend.Proofs.Transaction.SignedForm

namespace BitcoinSpend

namespace Context

variable {ctx : Context} {h : FixedBytes 20} {sig key : Bytes}

/-- A signature and a key that are pushed come to the comparison of the key's hash, unless the
signature is empty, which could make the key a witness program. -/
theorem exists_chain_pushedKey (ctx : Context) (h : FixedBytes 20) (hsig : sig ≠ []) (key : Bytes) :
    ∃ path, path.length = 5 ∧ State.Chain ctx
      (State.ofScript ([.data sig, .data key] ++ Script.payToKeyHash h)) path
      ⟨[.op .equalVerify, .op .checkSig], [h.bytes, (hash160 key).bytes, key, sig], []⟩ := by
  have hone : ([sig] : Stack) ≠ [[]] := by simpa using hsig
  have hsig' : (State.ofScript ([.data sig, .data key] ++ Script.payToKeyHash h)).step ctx =
      .ok ⟨.data key :: Script.payToKeyHash h, [sig], []⟩ :=
    State.step_push rfl (by simp) (by decide)
  have hkey : (⟨.data key :: Script.payToKeyHash h, [sig], []⟩ : State).step ctx =
      .ok ⟨Script.payToKeyHash h, [key, sig], []⟩ :=
    State.step_push rfl (fun hst => absurd hst hone) (by simp [maxStackSize])
  have hdup : (⟨Script.payToKeyHash h, [key, sig], []⟩ : State).step ctx =
      .ok ⟨(Script.payToKeyHash h).tail, [key, key, sig], []⟩ :=
    (State.step_op_iff (StackInstruction.dup 1).run fun _ => rfl).mpr
      ⟨_, StackInstruction.run_dup_one_eq_ok_iff.mpr ⟨key, [sig], rfl, rfl⟩, rfl, by
        simp [maxStackSize]⟩
  have hhash : (⟨(Script.payToKeyHash h).tail, [key, key, sig], []⟩ : State).step ctx =
      .ok ⟨[.data h.bytes, .op .equalVerify, .op .checkSig],
        [(hash160 key).bytes, key, sig], []⟩ :=
    (State.step_op_iff (StackInstruction.hash .hash160).run fun _ => rfl).mpr
      ⟨_, StackInstruction.run_hash_eq_ok_iff.mpr ⟨key, [key, sig], rfl, rfl⟩, rfl, by
        simp [maxStackSize]⟩
  have hpush : (⟨[.data h.bytes, .op .equalVerify, .op .checkSig],
      [(hash160 key).bytes, key, sig], []⟩ : State).step ctx =
        .ok ⟨[.op .equalVerify, .op .checkSig], [h.bytes, (hash160 key).bytes, key, sig], []⟩ :=
    State.step_push rfl (by simp) (by simp [maxStackSize])
  exact ⟨_, rfl, .step hsig' (.step hkey (.step hdup (.step hhash (.single hpush))))⟩

theorem execute_pushedKey_of_ne (ctx : Context) (hsig : sig ≠ []) (hkey : hash160 key ≠ h) :
    ∃ reason stack, ctx.execute ([.data sig, .data key] ++ Script.payToKeyHash h) =
      some (.failed reason stack) := by
  obtain ⟨path, hlen, hchain⟩ := exists_chain_pushedKey ctx h hsig key
  cases hverify : StackInstruction.equalVerify.run [h.bytes, (hash160 key).bytes, key, sig] with
  | ok u st =>
    obtain ⟨x, hst⟩ := StackInstruction.run_equalVerify_eq_ok_iff.mp hverify
    obtain ⟨rfl, hst⟩ := List.cons.inj hst
    exact absurd (FixedBytes.ext (List.cons.inj hst).1) hkey
  | error reason st =>
    have hstep : (⟨[.op .equalVerify, .op .checkSig],
        [h.bytes, (hash160 key).bytes, key, sig], []⟩ : State).step ctx =
          .error (.failed reason st) := by
      show ((State.onStack _ StackInstruction.equalVerify.run).bind State.checkSize) = _
      simp only [State.onStack, hverify, Except.bind]
    exact ⟨reason, st,
      execute_of_run (hchain.run_of_error hstep) (by simp [hlen, Script.payToKeyHash])⟩

theorem execute_pushedKey (ctx : Context) (hsig : sig ≠ []) (hkey : hash160 key = h) :
    ctx.execute ([.data sig, .data key] ++ Script.payToKeyHash h) =
      some (.completed [if ctx.accepts sig key then [1] else []]) := by
  obtain ⟨path, hlen, hchain⟩ := exists_chain_pushedKey ctx h hsig key
  have hverify : (⟨[.op .equalVerify, .op .checkSig],
      [h.bytes, (hash160 key).bytes, key, sig], []⟩ : State).step ctx =
        .ok ⟨[.op .checkSig], [key, sig], []⟩ :=
    (State.step_op_iff StackInstruction.equalVerify.run fun _ => rfl).mpr
      ⟨_, StackInstruction.run_equalVerify_eq_ok_iff.mpr ⟨h.bytes, by rw [hkey]⟩, rfl, by
        simp [maxStackSize]⟩
  have hcheck : (⟨[.op .checkSig], [key, sig], []⟩ : State).step ctx =
      .ok ⟨[], [if ctx.accepts sig key then [1] else []], []⟩ :=
    (State.step_op_iff (State.pushAnswer ctx.checkSig) fun _ => rfl).mpr
      ⟨_, by simp [State.pushAnswer], rfl, by simp [maxStackSize]⟩
  have hend := hchain.trans (.step hverify (.single hcheck))
  exact execute_of_run (hend.run_of_error rfl) (by simp [hlen, Script.payToKeyHash])

/-- What is pushed for a key hash is judged, and accepted just if the key has the hash and the
signature verifies for it. -/
theorem evaluate_pushedKey (ctx : Context) (h : FixedBytes 20) (hsig : sig ≠ []) (key : Bytes) :
    ctx.evaluate ([.data sig, .data key] ++ Script.payToKeyHash h) =
      .ok (decide (hash160 key = h) && ctx.accepts sig key) := by
  by_cases hkey : hash160 key = h
  · rw [evaluate, execute_pushedKey ctx hsig hkey]
    cases ctx.accepts sig key <;> simp [Ending.verdict, Ending.succeeds, hkey, Number.isTrue]
  · obtain ⟨reason, stack, hrun⟩ := execute_pushedKey_of_ne ctx hsig hkey
    rw [evaluate, hrun]
    simp [Ending.verdict, Ending.succeeds, hkey]

/-- An empty signature is none, also where the key behind it is run as a witness program. -/
theorem not_accepts_emptySignature {n : Nat} :
    ¬(State.ofScript ([.data [], .data key] ++ Script.payToKeyHash h)).Accepts ctx n := by
  intro ha
  obtain ⟨_, _, ha⟩ := State.Accepts.push rfl (by simp) ha
  obtain ⟨_, t, _, hstep, ha⟩ := ha.step_cons
  rcases State.step_data_ok rfl hstep with ⟨_, added, hadded, rfl⟩ | ⟨rfl, _⟩
  · obtain ⟨_, _, _, _, _, hst, _⟩ := ha.payToKeyHash
    simp at hst
  · obtain ⟨_, sig, _, _, _, hst, _, _, ha⟩ := State.Accepts.payToKeyHash (q := []) ha
    obtain ⟨rfl, hbelow⟩ := List.cons.inj hst
    obtain ⟨rfl, rfl⟩ := List.cons.inj hbelow
    exact State.not_accepts_nil ha

theorem evaluate_pushedKey_eq_ok_true_iff :
    ctx.evaluate ([.data sig, .data key] ++ Script.payToKeyHash h) = .ok true ↔
      hash160 key = h ∧ ctx.scheme.Signs ctx.digest sig key := by
  by_cases hsig : sig = []
  · subst hsig
    constructor
    · intro ha
      exact absurd (evaluate_eq_ok_true_iff.mp ha) not_accepts_emptySignature
    · intro hsigns
      exact absurd rfl hsigns.2.1
  · rw [evaluate_pushedKey ctx h hsig, ← accepts_eq_true_iff]
    simp

/-- What names the hash type is not looked at. -/
theorem accepts_append_singleton (ctx : Context) (der key : Bytes) (hashType hashType' : UInt8) :
    ctx.accepts (der ++ [hashType]) key = ctx.accepts (der ++ [hashType']) key := by
  simp [accepts, parseSignature]

end Context

theorem SignatureScheme.signs_iff {scheme : SignatureScheme} {z : Digest} {sig key : Bytes} :
    scheme.Signs z sig key ↔ ∃ der hashType, sig = der ++ [hashType] ∧ ∃ point signature,
      scheme.parsePoint key = some point ∧ scheme.parseSignature der = some signature ∧
        scheme.verify point z signature = true := by
  unfold Signs
  cases sig using List.reverseRecOn with
  | nil => simp
  | append_singleton der hashType => simp

namespace Transaction

variable {tx : Transaction} {scheme : SignatureScheme} {fetch : Fetcher} {index : Nat} {i : Input}
  {locking : Script} {h : FixedBytes 20} {sig key : Bytes}

/-- A key that is pushed behind anything but an empty signature is judged, once the digest is
there. -/
theorem verifyInput_pushedKey (hs : tx.Spends fetch index i (Script.payToKeyHash h))
    (hscript : i.script = [.data sig, .data key]) (hsig : sig ≠ []) :
    tx.verifyInput scheme fetch index = ofExcept ((fun z => decide (hash160 key = h) &&
      Context.accepts { scheme, digest := z } sig key) <$> tx.legacyDigest fetch index none) := by
  have ht := Script.template_eq_keyHash_iff.mpr (Eq.refl (Script.payToKeyHash h))
  have hrun : ∀ d, (tx.context scheme i d).evaluate (i.script ++ Script.payToKeyHash h) =
      .ok (decide (hash160 key = h) && (tx.context scheme i d).accepts sig key) := by
    intro d
    rw [hscript]
    exact Context.evaluate_pushedKey _ h hsig key
  simp only [verifyInput, hs.input_eq, hs.locking_eq, selectDigest, ht, hrun, ofExcept, pure_bind]
  cases tx.legacyDigest fetch index none with
  | error e => rfl
  | ok z =>
    have haccepts := (tx.context scheme i (.legacy z)).accepts_eq sig key
    exact congrArg (fun b => (pure (decide (hash160 key = h) && b) : DigestM Bool)) haccepts

/-- A signature and a key that are pushed spend a key hash just if the key has the hash and the
signature, without its last byte, verifies for it over the plain digest. The last byte names a hash
type, and the verdict is the same whatever it is. -/
theorem pushedKey_judged_without_hashType (scheme : SignatureScheme)
    (hs : tx.Spends fetch index i locking) (ht : locking.template = .keyHash h)
    (hscript : i.script = [.data sig, .data key]) :
    (∀ memo memo', tx.verifyInput scheme fetch index memo = .ok true memo' ↔
      memo' = memo ∧ ∃ z der hashType, tx.legacyDigest fetch index none = .ok z ∧
        sig = der ++ [hashType] ∧ hash160 key = h ∧ ∃ point signature,
          scheme.parsePoint key = some point ∧ scheme.parseSignature der = some signature ∧
            scheme.verify point z signature = true) ∧
    ∀ der hashType hashType', sig = der ++ [hashType] →
      (tx.withScript index [.data (der ++ [hashType']), .data key]).verifyInput scheme fetch index =
        tx.verifyInput scheme fetch index := by
  obtain rfl := Script.template_eq_keyHash_iff.mp ht
  constructor
  · intro memo memo'
    rw [verifyInput_eq_ok_iff hs, hscript]
    constructor
    · intro hv
      obtain ⟨d, hd, heval⟩ := hv
      obtain ⟨z, hz, rfl, rfl⟩ := (selectDigest_keyHash ht).mp hd
      obtain ⟨hkey, hsigns⟩ := Context.evaluate_pushedKey_eq_ok_true_iff.mp heval
      obtain ⟨der, hashType, hsig, hverifies⟩ := SignatureScheme.signs_iff.mp hsigns
      exact ⟨rfl, z, der, hashType, hz, hsig, hkey, hverifies⟩
    · intro hall
      obtain ⟨rfl, z, der, hashType, hz, hsig, hkey, hverifies⟩ := hall
      have hsigns : scheme.Signs z sig key :=
        SignatureScheme.signs_iff.mpr ⟨der, hashType, hsig, hverifies⟩
      exact ⟨.legacy z, (selectDigest_keyHash ht).mpr ⟨z, hz, rfl, rfl⟩,
        Context.evaluate_pushedKey_eq_ok_true_iff.mpr ⟨hkey, hsigns⟩⟩
  · intro der hashType hashType' hsig
    subst hsig
    have hs' := hs.modifyInput
      (f := fun i => { i with script := [.data (der ++ [hashType']), .data key] }) rfl
    have hne : ∀ last : UInt8, der ++ [last] ≠ [] := by simp
    rw [verifyInput_pushedKey hs hscript (hne hashType),
      ← legacyDigest_withScript fetch index [.data (der ++ [hashType']), .data key]]
    simp only [Context.accepts_append_singleton _ der key hashType hashType']
    exact verifyInput_pushedKey hs' rfl (hne hashType')

theorem generatorSignature_accepted :
    ∃ memo', (spending (unlockingGenerator 2) []).verifyInput Secp256k1.scheme holdingGenerator 0
      {} = .ok true memo' :=
  exists_verifyInput_of_run (by decide +kernel)

/-- One signature spends the output with every hash type behind it. -/
theorem generatorSignature_accepted_with_every_hashType :
    (spending (unlockingGenerator 2) []).Spends holdingGenerator 0
        (spendingInput (unlockingGenerator 2) []) (Script.payToKeyHash (hash160 generatorKey)) ∧
      ∀ hashType, (spending (unlockingGenerator hashType) []).verifyInput Secp256k1.scheme
        holdingGenerator 0 {} = .ok true {} := by
  have hs := spending_spends (unlockingGenerator 2) (Script.payToKeyHash (hash160 generatorKey)) []
  obtain ⟨hiff, hevery⟩ := pushedKey_judged_without_hashType Secp256k1.scheme hs
    (Script.template_eq_keyHash_iff.mpr rfl) rfl
  obtain ⟨memo', hv⟩ := generatorSignature_accepted
  obtain ⟨rfl, _⟩ := (hiff {} memo').mp hv
  refine ⟨hs, fun hashType => ?_⟩
  have hsame := hevery generatorSignature 2 hashType rfl
  exact (congrFun hsame {}).trans hv

/-- An input that spends a key hash verifies, though the last byte of its signature is not the hash
type that the digest commits to. -/
theorem foreign_hashType_accepted :
    (spending (unlockingGenerator 2) []).Spends holdingGenerator 0
        (spendingInput (unlockingGenerator 2) []) (Script.payToKeyHash (hash160 generatorKey)) ∧
      (spendingInput (unlockingGenerator 2) []).script =
        [.data (generatorSignature ++ [2]), .data generatorKey] ∧
      (generatorSignature ++ [2]).getLast? ≠ some signAll ∧
      ∃ memo', (spending (unlockingGenerator 2) []).verifyInput Secp256k1.scheme
        holdingGenerator 0 {} = .ok true memo' :=
  ⟨spending_spends _ _ _, rfl, by decide, generatorSignature_accepted⟩

end Transaction

end BitcoinSpend

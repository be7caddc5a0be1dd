import BitcoinSpend.Curve.Ecdsa
import BitcoinSpend.Proofs.Spend.Verify

namespace BitcoinSpend

/-- Without a witness, what is accepted in front of the script of a key hash checks a signature for
a key with that hash. -/
theorem Context.checksSig_of_evaluate {ctx : Context} {unlocking : Script} {h : FixedBytes 20}
    (hempty : ctx.scheme.parsePoint [] = none) (hw : ctx.witness = [])
    (ha : ctx.evaluate (unlocking ++ Script.payToKeyHash h) = .ok true) :
    ∃ q sig key rest alt, (⟨.op .checkSig :: q, key :: sig :: rest, alt⟩ : State) ∈
        ctx.visited (unlocking ++ Script.payToKeyHash h) ∧
      hash160 key = h ∧ ctx.scheme.Signs ctx.digest sig key := by
  have hlast : (Script.payToKeyHash h).getLast? ≠ some (.op .equal) := by
    rw [show (Script.payToKeyHash h).getLast? = some (.op .checkSig) from rfl]
    decide
  have hne : Script.payToKeyHash h ≠ [] := by simp [Script.payToKeyHash]
  have hsh := fun front hs => Script.scriptHash?_eq_none_of_getLast?
    (Script.getLast?_append_payToKeyHashes hne hlast front hs)
  obtain ⟨path, hs, st, alt, m, _, hchain, hlock⟩ :=
    tail_reached hw (Script.balanced_payToKeyHash h) hsh ha
  obtain ⟨key, sig, rest, path', m', rfl, hkey, hchain', hbehind⟩ := hlock.payToKeyHash
  refine ⟨_, sig, key, rest, alt,
    (hchain.trans hchain').mem_visited (evaluate_eq_ok_true_iff.mp ha), hkey, ?_⟩
  by_contra hsigns
  rw [accepts_eq_false_iff.mpr hsigns] at hbehind
  exact State.not_accepts_payToKeyHashes hempty hbehind

/-- A signature and a key with the hash unlock the script of the hash. -/
theorem Context.evaluate_payToKeyHash {ctx : Context} {h : FixedBytes 20} {sig key : Bytes}
    (hkey : hash160 key = h) (hsigns : ctx.scheme.Signs ctx.digest sig key) :
    ctx.evaluate ([.data sig, .data key] ++ Script.payToKeyHash h) = .ok true := by
  have hend : (⟨[], [[1]], []⟩ : State).Accepts ctx 1 :=
    State.accepts_nil_iff.mpr ⟨Nat.one_pos, rfl⟩
  have hlock := hend.of_payToKeyHash hkey hsigns (by decide)
  have hone : ([sig] : Stack) ≠ [[]] := by simpa using hsigns.1
  have hpushed :=
    State.Accepts.of_push rfl (fun hst => absurd hst hone) (by simp [maxStackSize]) hlock
  have hstart := State.Accepts.of_push rfl (fun hst => by simp at hst) (by decide) hpushed
  refine evaluate_of_accepts hstart ?_
  simp only [Script.weight, Command.weight, Script.payToKeyHash, List.cons_append, List.nil_append]
  omega

namespace Transaction

variable {tx : Transaction} {scheme : SignatureScheme} {fetch : Fetcher} {index : Nat} {i : Input}
  {locking : Script} {h : FixedBytes 20}

/-- An output that is locked by a key hash is spent only by checking a signature of the plain digest
for a key with that hash, and is spent by pushing such a signature and the key. -/
theorem keyHash_spent_by_signature (hempty : scheme.parsePoint [] = none)
    (hs : tx.Spends fetch index i locking) (ht : locking.template = .keyHash h) :
    (∀ memo memo', tx.verifyInput scheme fetch index memo = .ok true memo' →
      ∃ z, tx.legacyDigest fetch index none = .ok z ∧
        ∃ q sig key rest alt, (⟨.op .checkSig :: q, key :: sig :: rest, alt⟩ : State) ∈
            tx.visited scheme i locking (.legacy z) ∧
          hash160 key = h ∧ scheme.Signs z sig key) ∧
    ∀ z sig key, tx.legacyDigest fetch index none = .ok z → i.script = [.data sig, .data key] →
      hash160 key = h → scheme.Signs z sig key →
        ∀ memo, tx.verifyInput scheme fetch index memo = .ok true memo := by
  have hlocking := Script.template_eq_keyHash_iff.mp ht
  constructor
  · intro memo memo' hv
    obtain ⟨d, hd, heval⟩ := (verifyInput_eq_ok_iff hs).mp hv
    obtain ⟨z, hz, rfl, rfl⟩ := (selectDigest_keyHash ht).mp hd
    subst hlocking
    have hctx : (tx.context scheme i (.legacy z)).scheme.parsePoint [] = none := hempty
    exact ⟨z, hz, Context.checksSig_of_evaluate hctx rfl heval⟩
  · intro z sig key hz hscript hkey hsigns memo
    have hd : tx.selectDigest fetch index i locking memo = .ok (.legacy z) memo :=
      (selectDigest_keyHash ht).mpr ⟨z, hz, rfl, rfl⟩
    refine (verifyInput_eq_ok_iff hs).mpr ⟨.legacy z, hd, ?_⟩
    rw [hscript, hlocking]
    exact Context.evaluate_payToKeyHash hkey hsigns

/-- The key of the secret one. -/
def generatorKey : Bytes :=
  Secp256k1.generator.encode true

/-- The source of an output that pays to the hash of the generator as a key. -/
def holdingGenerator : Fetcher :=
  holding (Script.payToKeyHash (hash160 generatorKey))

/-- A signature of the secret one for a spend of this output. -/
def generatorSignature : Bytes :=
  [0x30, 0x45, 0x02, 0x21, 0x00, 0xf8, 0x17, 0xa0, 0x6c, 0x37, 0x51, 0xbc, 0xea, 0xc7, 0x39, 0xc8,
    0x35, 0xce, 0xc4, 0xa2, 0xe0, 0x73, 0xbe, 0xdf, 0x1f, 0xa1, 0x3c, 0x2d, 0xce, 0x6e, 0x6c, 0x8e,
    0x55, 0xca, 0xd3, 0x42, 0x92, 0x02, 0x20, 0x48, 0xde, 0xd6, 0x3b, 0x4a, 0x46, 0xde, 0x7e, 0xad,
    0x3f, 0xaa, 0x26, 0xab, 0x0f, 0x15, 0x5b, 0xb9, 0x04, 0xfd, 0xf0, 0x71, 0xf5, 0xbf, 0xd1, 0xb0,
    0x1f, 0x29, 0xd3, 0x5a, 0x6e, 0x99, 0xd9]

/-- Unlocks the output with a hash type behind the signature. -/
def unlockingGenerator (hashType : UInt8) : Script :=
  [.data (generatorSignature ++ [hashType]), .data generatorKey]

theorem generatorSignature_signs :
    ∃ z, (spending (unlockingGenerator 1) []).legacyDigest holdingGenerator 0 none = .ok z ∧
      Secp256k1.scheme.Signs z (generatorSignature ++ [1]) generatorKey := by
  have hrun : ((spending (unlockingGenerator 1) []).legacyDigest holdingGenerator 0 none >>=
      fun z => pure (Context.accepts { scheme := Secp256k1.scheme, digest := z }
        (generatorSignature ++ [1]) generatorKey)) = Except.ok true := by
    decide +kernel
  obtain ⟨z, hz, haccepts⟩ := Except.bind_eq_ok_iff.mp hrun
  exact ⟨z, hz, Context.accepts_eq_true_iff.mp (Except.pure_eq_ok_iff.mp haccepts)⟩

/-- A signature of the generator as a key spends its hash, and the run that accepts it has checked a
signature for a key with that hash. -/
theorem generatorKey_spends :
    ∃ z, (spending (unlockingGenerator 1) []).legacyDigest holdingGenerator 0 none = .ok z ∧
      Secp256k1.scheme.Signs z (generatorSignature ++ [1]) generatorKey ∧
      (spending (unlockingGenerator 1) []).verifyInput Secp256k1.scheme holdingGenerator 0 {} =
        .ok true {} ∧
      ∃ q sig key rest alt, (⟨.op .checkSig :: q, key :: sig :: rest, alt⟩ : State) ∈
          (spending (unlockingGenerator 1) []).visited Secp256k1.scheme
            (spendingInput (unlockingGenerator 1) [])
            (Script.payToKeyHash (hash160 generatorKey)) (.legacy z) ∧
        hash160 key = hash160 generatorKey ∧ Secp256k1.scheme.Signs z sig key := by
  obtain ⟨z, hz, hsigns⟩ := generatorSignature_signs
  have hempty : Secp256k1.scheme.parsePoint [] = none := rfl
  have hs : (spending (unlockingGenerator 1) []).Spends holdingGenerator 0
      (spendingInput (unlockingGenerator 1) []) (Script.payToKeyHash (hash160 generatorKey)) :=
    spending_spends _ _ _
  have ht := Script.template_eq_keyHash_iff.mpr
    (Eq.refl (Script.payToKeyHash (hash160 generatorKey)))
  obtain ⟨hsound, hcomplete⟩ := keyHash_spent_by_signature hempty hs ht
  have hv := hcomplete z _ generatorKey hz rfl rfl hsigns {}
  obtain ⟨z', hz', hvisited⟩ := hsound {} {} hv
  obtain rfl := Except.ok.inj (hz.symm.trans hz')
  exact ⟨z, hz, hsigns, hv, hvisited⟩

end Transaction

end BitcoinSpend

import BitcoinSpend.Proofs.Spend.PushedKey
import BitcoinSpend.Proofs.Transaction.Independence

namespace BitcoinSpend

namespace SignatureScheme

/-- A signature made with a secret, and the key of the secret, are read back from their encodings,
and the signature verifies for the key. -/
structure ReadsBack (scheme : SignatureScheme) (secret : scheme.Secret) (compressed : Bool)
    (z : Digest) : Prop where
  signature : ∃ s, scheme.parseSignature (scheme.encodeSignature (scheme.sign secret z)) = some s ∧
    scheme.verify (scheme.publicKey secret) z s = true
  key : scheme.parsePoint (scheme.encodePoint compressed (scheme.publicKey secret)) =
    some (scheme.publicKey secret)

/-- Whether a signature verifies once it is read back can be run. -/
theorem ReadsBack.of_run {scheme : SignatureScheme} {secret : scheme.Secret} {compressed : Bool}
    {r : Except TxError Digest} {z : Digest}
    (hrun : r.toOption.any (fun z => (scheme.parseSignature
      (scheme.encodeSignature (scheme.sign secret z))).any
        (scheme.verify (scheme.publicKey secret) z)) = true)
    (hkey : scheme.parsePoint (scheme.encodePoint compressed (scheme.publicKey secret)) =
      some (scheme.publicKey secret))
    (hz : r = .ok z) : scheme.ReadsBack secret compressed z := by
  subst hz
  exact ⟨(Option.any_eq_true _ _).mp hrun, hkey⟩

theorem ReadsBack.signs {scheme : SignatureScheme} {secret : scheme.Secret} {compressed : Bool}
    {z : Digest} (h : scheme.ReadsBack secret compressed z) (hashType : UInt8) :
    scheme.Signs z (scheme.encodeSignature (scheme.sign secret z) ++ [hashType])
      (scheme.encodePoint compressed (scheme.publicKey secret)) := by
  obtain ⟨s, hs, hverify⟩ := h.signature
  exact signs_iff.mpr ⟨_, hashType, rfl, _, s, h.key, hs, hverify⟩

end SignatureScheme

namespace Transaction

variable {tx : Transaction} {scheme : SignatureScheme} {fetch : Fetcher} {index : Nat} {i : Input}
  {h : FixedBytes 20} {secret : scheme.Secret} {compressed : Bool} {z : Digest}

theorem withScript_eq_set (hi : tx.input index = .ok i) (script : Script) :
    tx.withScript index script = { tx with inputs := tx.inputs.set index { i with script } } := by
  have hget : tx.inputs[index]? = some i := by
    unfold input at hi
    split at hi
    next j hj => rw [hj, Except.ok.inj hi]
    next => simp at hi
  simp [withScript, List.modify_eq_set_getElem?, hget]

/-- The verdict on a signed input is there, and no hash is kept for it. -/
theorem verifyInput_signed (hs : tx.Spends fetch index i (Script.payToKeyHash h))
    (hz : tx.legacyDigest fetch index none = .ok z)
    (hreads : scheme.ReadsBack secret compressed z) :
    (tx.withScript index (Draft.unlockingScript scheme secret compressed z)).verifyInput scheme
        fetch index =
      pure (decide (hash160 (scheme.encodePoint compressed (scheme.publicKey secret)) = h)) := by
  have hs' := hs.modifyInput
    (f := fun i => { i with script := Draft.unlockingScript scheme secret compressed z }) rfl
  have haccepts : Context.accepts { scheme, digest := z }
      (scheme.encodeSignature (scheme.sign secret z) ++ [signAll])
      (scheme.encodePoint compressed (scheme.publicKey secret)) = true :=
    Context.accepts_eq_true_iff.mpr (hreads.signs signAll)
  refine (verifyInput_pushedKey hs' rfl (by simp)).trans ?_
  show ofExcept (_ <$> (tx.withScript index _).legacyDigest fetch index none) = _
  rw [legacyDigest_withScript, hz]
  simp only [Functor.map, Except.map, haccepts, Bool.and_true]
  rfl

end Transaction

namespace Draft

variable {scheme : SignatureScheme} {fetch : Fetcher} {index : Nat} {secret : scheme.Secret}
  {compressed : Bool} {d : Draft}

/-- Once the script is put there, there is a verdict. -/
theorem signInput_of_spends {i : Input} {h : FixedBytes 20} {z : Digest}
    (hs : d.tx.Spends fetch index i (Script.payToKeyHash h))
    (hz : d.tx.legacyDigest fetch index none = .ok z)
    (hreads : scheme.ReadsBack secret compressed z) :
    signInput scheme fetch index secret compressed d =
      .ok (decide (hash160 (scheme.encodePoint compressed (scheme.publicKey secret)) = h))
        { d with tx := d.tx.withScript index (unlockingScript scheme secret compressed z) } := by
  have hscript := Transaction.signedScript_eq_ok_iff.mpr
    ⟨i, h, z, hs, hz, Eq.refl (unlockingScript scheme secret compressed z)⟩
  have hverdict := Transaction.verifyInput_signed hs hz hreads
  rw [signInput_eq, hscript]
  exact lift_eq_outcome (r := .ok _) (congrFun hverdict d.memo)

section

variable (hreads : ∀ z, d.tx.legacyDigest fetch index none = .ok z →
  scheme.ReadsBack secret compressed z)

include hreads

theorem signInput_eq_ok_iff {valid : Bool} {d' : Draft} :
    signInput scheme fetch index secret compressed d = .ok valid d' ↔
      ∃ i h z, d.tx.Spends fetch index i (Script.payToKeyHash h) ∧
        d.tx.legacyDigest fetch index none = .ok z ∧
        d' = { d with tx := d.tx.withScript index (unlockingScript scheme secret compressed z) } ∧
        valid =
          decide (hash160 (scheme.encodePoint compressed (scheme.publicKey secret)) = h) := by
  constructor
  · intro hok
    cases hsigned : d.tx.signedScript scheme fetch index secret compressed with
    | error e =>
      rw [signInput_eq, hsigned] at hok
      cases hok
    | ok script =>
      obtain ⟨i, h, z, hs, hz, -⟩ := Transaction.signedScript_eq_ok_iff.mp hsigned
      rw [signInput_of_spends hs hz (hreads z hz)] at hok
      cases hok
      exact ⟨i, h, z, hs, hz, rfl, rfl⟩
  · intro hall
    obtain ⟨i, h, z, hs, hz, rfl, rfl⟩ := hall
    exact signInput_of_spends hs hz (hreads z hz)

/-- Whatever fails is found before the script is put there. -/
theorem eq_of_signInput_eq_error {e : TxError} {d' : Draft}
    (herror : signInput scheme fetch index secret compressed d = .error e d') : d' = d := by
  cases hsigned : d.tx.signedScript scheme fetch index secret compressed with
  | error e' =>
    rw [signInput_eq, hsigned] at herror
    exact (EStateM.Result.error.inj herror).2.symm
  | ok script =>
    obtain ⟨i, h, z, hs, hz, -⟩ := Transaction.signedScript_eq_ok_iff.mp hsigned
    rw [signInput_of_spends hs hz (hreads z hz)] at herror
    cases herror

end

/-- Signing changes a transaction only when it answers. It answers just if the input spends a key
hash and the plain digest is there. Then a signature of the digest with its hash type and the key
are the script of the input, and nothing else has changed, the hashes that are kept neither. The
answer tells whether the key has the hash, and so does every verdict on the input from then on. -/
theorem signInput_exact (scheme : SignatureScheme) (fetch : Fetcher) (index : Nat)
    (secret : scheme.Secret) (compressed : Bool) (d : Draft)
    (hreads : ∀ z, d.tx.legacyDigest fetch index none = .ok z →
      scheme.ReadsBack secret compressed z) :
    (∀ e d', signInput scheme fetch index secret compressed d = .error e d' → d' = d) ∧
    (∀ valid d', signInput scheme fetch index secret compressed d = .ok valid d' ↔
      ∃ i h z, d.tx.Spends fetch index i (Script.payToKeyHash h) ∧
        d.tx.legacyDigest fetch index none = .ok z ∧
        d' = { d with tx := { d.tx with inputs := d.tx.inputs.set index { i with script :=
          [.data (scheme.encodeSignature (scheme.sign secret z) ++ [0x01]),
            .data (scheme.encodePoint compressed (scheme.publicKey secret))] } } } ∧
        valid = decide (hash160 (scheme.encodePoint compressed (scheme.publicKey secret)) = h)) ∧
    ∀ valid d', signInput scheme fetch index secret compressed d = .ok valid d' →
      ∀ memo, d'.tx.verifyInput scheme fetch index memo = .ok valid memo := by
  refine ⟨fun e d' => eq_of_signInput_eq_error hreads, fun valid d' => ?_,
    fun valid d' hok memo => ?_⟩
  · rw [signInput_eq_ok_iff hreads]
    refine exists_congr fun i => exists_congr fun h => exists_congr fun z =>
      and_congr_right fun hs => ?_
    rw [Transaction.withScript_eq_set hs.input_eq]
    rfl
  · obtain ⟨i, h, z, hs, hz, rfl, rfl⟩ := (signInput_eq_ok_iff hreads).mp hok
    exact congrFun (Transaction.verifyInput_signed hs hz (hreads z hz)) memo

theorem publicKey_oneSecret :
    Secp256k1.scheme.publicKey Context.oneSecret = Secp256k1.generator := by
  simp only [Secp256k1.scheme]
  decide +kernel

/-- What the secret one signs for the output that pays to the hash of the generator is read back. -/
theorem readsBack_oneSecret {z : Digest}
    (hz : (Transaction.spending [] []).legacyDigest Transaction.holdingGenerator 0 none = .ok z) :
    Secp256k1.scheme.ReadsBack Context.oneSecret true z := by
  refine .of_run ?_ ?_ hz
  · decide +kernel
  · rw [publicKey_oneSecret]
    simp only [Secp256k1.scheme]
    decide +kernel

/-- The secret one signs for the output that pays to the hash of the generator, and the input
verifies from then on. -/
theorem oneSecret_signs_for_generator :
    (∀ z, (fresh (Transaction.spending [] [])).tx.legacyDigest Transaction.holdingGenerator 0 none =
        .ok z → Secp256k1.scheme.ReadsBack Context.oneSecret true z) ∧
      ∃ d', signInput Secp256k1.scheme Transaction.holdingGenerator 0 Context.oneSecret true
          (fresh (Transaction.spending [] [])) = .ok true d' ∧
        ∀ memo, d'.tx.verifyInput Secp256k1.scheme Transaction.holdingGenerator 0 memo =
          .ok true memo := by
  have hreads := fun z => readsBack_oneSecret (z := z)
  obtain ⟨-, hiff, hafter⟩ := signInput_exact Secp256k1.scheme Transaction.holdingGenerator 0
    Context.oneSecret true (fresh (Transaction.spending [] [])) hreads
  obtain ⟨code, hcode⟩ := Transaction.exists_bytes_payToKeyHash (hash160 Transaction.generatorKey)
  obtain ⟨z, hz⟩ := Transaction.exists_legacyDigest_spending hcode [] []
  have hkey : Secp256k1.scheme.encodePoint true (Secp256k1.scheme.publicKey Context.oneSecret) =
      Transaction.generatorKey := by
    rw [publicKey_oneSecret]
    rfl
  have hok := (hiff true _).mpr ⟨_, _, z, Transaction.spending_spends [] _ [], hz, rfl, by
    rw [hkey, decide_eq_true rfl]⟩
  exact ⟨hreads, _, hok, hafter true _ hok⟩

end Draft

end BitcoinSpend

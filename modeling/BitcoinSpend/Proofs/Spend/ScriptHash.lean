import BitcoinSpend.Curve.Ecdsa
import BitcoinSpend.Proofs.Spend.Verify

namespace BitcoinSpend

namespace Script

theorem scriptHash?_append_redeem (body : Bytes) (h : FixedBytes 20) (front extra : Script) :
    scriptHash? (front ++ (.data body :: payToScriptHash h ++ extra)) = none := by
  refine scriptHash?_eq_none_of_length ?_
  simp only [payToScriptHash, List.length_append, List.length_cons]
  omega

theorem balanced_redeem (body : Bytes) (h : FixedBytes 20) :
    Balanced (.data body :: payToScriptHash h) :=
  balanced_of_endings_openings rfl rfl

end Script

namespace Context

variable {ctx : Context} {unlocking : Script} {body : Bytes} {h : FixedBytes 20}

/-- Without a witness only a push with the hash goes before the script of a script hash. -/
theorem redeem_of_evaluate (hempty : ctx.scheme.parsePoint [] = none) (hw : ctx.witness = [])
    (ha : ctx.evaluate (unlocking ++ .data body :: Script.payToScriptHash h) = .ok true) :
    hash160 body = h := by
  have hsh := fun front (hs : List (FixedBytes 20)) =>
    Script.scriptHash?_append_redeem body h front (hs.flatMap Script.payToKeyHash)
  obtain ⟨_, hs, st, alt, m, _, _, hredeem⟩ :=
    tail_reached hw (Script.balanced_redeem body h) hsh ha
  obtain ⟨_, t, _, hstep, ht⟩ := hredeem.step_cons
  cases hs with
  | nil =>
    have hq : Script.scriptHash? (Script.payToScriptHash h ++ [].flatMap Script.payToKeyHash) =
        some h := Script.scriptHash?_eq_some_iff.mpr (by simp)
    exact (State.step_redeem_ok hq hstep).1
  | cons k hs =>
    have hq : Script.scriptHash?
        (Script.payToScriptHash h ++ (k :: hs).flatMap Script.payToKeyHash) = none := by
      refine Script.scriptHash?_eq_none_of_length ?_
      simp [Script.payToScriptHash, Script.payToKeyHash]
    rcases State.step_data_ok hq hstep with ⟨rfl, added, _, rfl⟩ | ⟨rfl, _⟩
    · -- A completed program leaves nothing for the script of the script hash to take.
      simp only [List.append_assoc] at ht
      obtain ⟨_, _, _, hst, _⟩ := ht.payToScriptHash
      simp at hst
    · obtain ⟨_, rest, _, hst, hbehind⟩ := ht.payToScriptHash
      obtain ⟨rfl, rfl⟩ := List.cons.inj hst
      by_contra hne
      have hbytes : h.bytes ≠ (hash160 body).bytes := fun heq => hne (FixedBytes.ext heq.symm)
      rw [if_neg hbytes] at hbehind
      exact State.not_accepts_payToKeyHashes hempty hbehind

/-- With a witness as well, unless a witness program was completed in front of that push. -/
theorem redeem_or_program_of_evaluate
    (ha : ctx.evaluate (unlocking ++ .data body :: Script.payToScriptHash h) = .ok true) :
    hash160 body = h ∨ ∃ s ∈ ctx.visited (unlocking ++ .data body :: Script.payToScriptHash h),
      s.CompletesBefore ctx (.data body :: Script.payToScriptHash h) := by
  have hsh := fun front => Script.scriptHash?_append_redeem body h front []
  simp only [List.append_nil] at hsh
  rcases tail_reached_or_program (Script.balanced_redeem body h) hsh ha with
    hprogram | ⟨st, alt, m, _, hredeem⟩
  · exact Or.inr hprogram
  · obtain ⟨_, _, _, hstep, _⟩ := hredeem.step_cons
    exact Or.inl (State.step_redeem_ok (Script.scriptHash?_eq_some_iff.mpr rfl) hstep).1

/-- A true witness script, completed in front of a push, comes to stand behind the locking script,
and the push is not run as a redeem script any more. -/
theorem evaluate_embedded_true (hw : ctx.witness = [Script.trueBody]) :
    ctx.evaluate ([.op .zero, .data (Sha256.digest Script.trueBody).bytes] ++
      .data body :: Script.payToScriptHash h) = .ok true := by
  have hne : ([(hash160 body).bytes] : Stack) ≠ [[]] := fun heq =>
    (hash160 body).bytes_ne_nil (List.cons.inj heq).1
  have hequal : (⟨[.op .equal, .op .pushOne], [h.bytes, (hash160 body).bytes], []⟩ : State).Accepts
      ctx 3 :=
    (State.accepts_pushOne (by simp [maxStackSize])).of_op StackInstruction.equal.run (fun _ => rfl)
      (StackInstruction.run_equal_eq_ok_iff.mpr ⟨_, _, [], rfl, rfl⟩) (by simp [maxStackSize])
  have hpush : (⟨[.data h.bytes, .op .equal, .op .pushOne], [(hash160 body).bytes], []⟩ :
      State).Accepts ctx 4 :=
    .of_push rfl (fun hst => absurd hst hne) (by simp [maxStackSize]) hequal
  have hhash : (⟨Script.payToScriptHash h ++ [.op .pushOne], [body], []⟩ : State).Accepts ctx 5 :=
    hpush.of_op (StackInstruction.hash .hash160).run (fun _ => rfl)
      (StackInstruction.run_hash_eq_ok_iff.mpr ⟨body, [], rfl, rfl⟩) (by simp [maxStackSize])
  have hredeem : (⟨.data body :: Script.payToScriptHash h ++ [.op .pushOne], [], []⟩ :
      State).Accepts ctx 6 :=
    .of_push rfl (by simp) (by simp [maxStackSize]) hhash
  have hsh := Script.scriptHash?_append_redeem body h [] []
  simp only [List.nil_append, List.append_nil] at hsh
  refine evaluate_of_accepts (State.Accepts.of_true_program hw hsh hredeem) ?_
  simp only [Script.weight, Command.weight, Script.payToScriptHash, List.cons_append,
    List.nil_append]
  omega

end Context

/-- Bytes that a redeem script can be read from which stands for its witness. -/
def Script.EmbedsWitnessProgram (body : Bytes) : Prop :=
  ∃ redeem, ofBody body = .ok redeem ∧ redeem.IsWitnessProgram

namespace Transaction

variable {tx : Transaction} {scheme : SignatureScheme} {fetch : Fetcher} {index : Nat} {i : Input}
  {locking : Script} {h : FixedBytes 20}

/-- An accepted spend of a script hash ends in the push of a script with that hash, or of a witness
program in front of which another witness program was completed. -/
theorem redeem_of_verifyInput (hempty : scheme.parsePoint [] = none)
    (hs : tx.Spends fetch index i locking) (ht : locking.template = .scriptHash h)
    {memo memo' : DigestMemo} (hv : tx.verifyInput scheme fetch index memo = .ok true memo') :
    ∃ front body, i.script = front ++ [.data body] ∧ (hash160 body = h ∨
      Script.EmbedsWitnessProgram body ∧ ∃ d,
        tx.selectDigest fetch index i locking memo = .ok d memo' ∧
        ∃ s ∈ tx.visited scheme i locking d,
          s.CompletesBefore (tx.context scheme i d) (.data body :: locking)) := by
  obtain rfl := Script.template_eq_scriptHash_iff.mp ht
  obtain ⟨d, hd, heval⟩ := (verifyInput_eq_ok_iff hs).mp hv
  obtain ⟨redeem, hredeem, hwitness⟩ := selectDigest_scriptHash ht hd
  obtain ⟨front, body, hscript, hbody⟩ := Input.redeemScript_eq_ok_iff.mp hredeem
  have hqueue : i.script ++ Script.payToScriptHash h =
      front ++ .data body :: Script.payToScriptHash h := by
    simp [hscript]
  rw [hqueue] at heval
  refine ⟨front, body, hscript, ?_⟩
  cases hw : d.usesWitness with
  | false =>
    have hnone : (tx.context scheme i d).witness = [] := by simp [context, hw]
    have hctx : (tx.context scheme i d).scheme.parsePoint [] = none := hempty
    exact Or.inl (Context.redeem_of_evaluate hctx hnone heval)
  | true =>
    rcases Context.redeem_or_program_of_evaluate heval with hhash | hprogram
    · exact Or.inl hhash
    · rw [← hqueue] at hprogram
      exact Or.inr ⟨⟨redeem, hbody, hwitness hw⟩, d, hd, hprogram⟩

/-- Whatever a script hash is, it is unlocked by any witness program behind the witness program of a
true script. -/
theorem verifyInput_embedded_true (scheme : SignatureScheme) (hs : tx.Spends fetch index i locking)
    (ht : locking.template = .scriptHash h) {body : Bytes} {outputs : Digest}
    (hbody : Script.EmbedsWitnessProgram body) (hout : tx.hashOutputs = .ok outputs)
    (memo : DigestMemo) :
    ∃ memo', (tx.withUnlocking index
      ([.op .zero, .data (Sha256.digest Script.trueBody).bytes] ++ [.data body])
      [Script.trueBody]).verifyInput scheme fetch index memo = .ok true memo' := by
  obtain ⟨redeem, hredeem, hp⟩ := hbody
  have hs' := hs.withUnlocking
    ([.op .zero, .data (Sha256.digest Script.trueBody).bytes] ++ [.data body]) [Script.trueBody]
  have hscript : embeddedScript (some Script.trueBody) = .ok [.op .pushOne] := rfl
  have hcode : Script.bytes [.op .pushOne] = .ok [1, 0x51] := rfl
  obtain ⟨z, memo', hz⟩ := exists_selectDigest_scriptHash hs' ht
    (Input.redeemScript_eq_ok_iff.mpr ⟨_, body, rfl, hredeem⟩) hp hscript hcode hout memo
  refine ⟨memo', (verifyInput_eq_ok_iff hs').mpr ⟨_, hz, ?_⟩⟩
  rw [Script.template_eq_scriptHash_iff.mp ht]
  simpa using Context.evaluate_embedded_true rfl

/-- An output that is locked by a script hash is spent by a push of a script with that hash, and a
push at the end of an unlocking script forces the hash unless it is a witness program. -/
theorem scriptHash_spent_by_redeem (hempty : scheme.parsePoint [] = none)
    (hs : tx.Spends fetch index i locking) (ht : locking.template = .scriptHash h)
    {outputs : Digest} (hout : tx.hashOutputs = .ok outputs) :
    (∀ memo memo', tx.verifyInput scheme fetch index memo = .ok true memo' →
      ∃ front body, i.script = front ++ [.data body] ∧ (hash160 body = h ∨
        Script.EmbedsWitnessProgram body ∧ ∃ d,
          tx.selectDigest fetch index i locking memo = .ok d memo' ∧
          ∃ s ∈ tx.visited scheme i locking d,
            s.CompletesBefore (tx.context scheme i d) (.data body :: locking))) ∧
    ∀ body, (∀ front witness memo memo', (tx.withUnlocking index (front ++ [.data body])
        witness).verifyInput scheme fetch index memo = .ok true memo' → hash160 body = h) ↔
      hash160 body = h ∨ ¬Script.EmbedsWitnessProgram body := by
  refine ⟨fun memo memo' hv => redeem_of_verifyInput hempty hs ht hv, fun body => ⟨?_, ?_⟩⟩
  · intro hall
    by_cases hbody : Script.EmbedsWitnessProgram body
    · obtain ⟨memo', hv⟩ := verifyInput_embedded_true scheme hs ht hbody hout {}
      exact Or.inl (hall _ _ _ _ hv)
    · exact Or.inr hbody
  · intro hcase front witness memo memo' hv
    have hs' := hs.withUnlocking (front ++ [.data body]) witness
    obtain ⟨front', body', hscript, hredeem⟩ := redeem_of_verifyInput hempty hs' ht hv
    obtain ⟨_, hlast⟩ := List.append_inj' hscript rfl
    cases hlast
    rcases hredeem with hhash | ⟨hbody, _⟩
    · exact hhash
    · exact hcase.resolve_right (not_not.mpr hbody)

theorem true_redeem_forces_hash :
    (∀ front witness memo memo',
      ((spending [] []).withUnlocking 0 (front ++ [.data Script.trueBody]) witness).verifyInput
          Secp256k1.scheme (holding (Script.payToScriptHash (FixedBytes.zero 20))) 0 memo =
        .ok true memo' → hash160 Script.trueBody = FixedBytes.zero 20) ↔
      hash160 Script.trueBody = FixedBytes.zero 20 ∨
        ¬Script.EmbedsWitnessProgram Script.trueBody :=
  (scriptHash_spent_by_redeem rfl (spending_spends _ _ _)
    (Script.template_eq_scriptHash_iff.mpr rfl) rfl).2 _

/-- The hash of a script is not demanded in this spend. -/
theorem uncommitted_redeem_accepted :
    ∃ memo', (spending [.op .zero, .data (Sha256.digest Script.trueBody).bytes,
        .data (0x00 :: 0x14 :: List.replicate 20 0x00)] [Script.trueBody]).verifyInput
          Secp256k1.scheme (holding (Script.payToScriptHash ⟨List.replicate 20 0x11, rfl⟩)) 0 {} =
        .ok true memo' ∧
      hash160 (0x00 :: 0x14 :: List.replicate 20 0x00) ≠ ⟨List.replicate 20 0x11, rfl⟩ := by
  have hbody : Script.EmbedsWitnessProgram (0x00 :: 0x14 :: List.replicate 20 0x00) :=
    ⟨_, rfl, Or.inl ⟨FixedBytes.zero 20, rfl⟩⟩
  obtain ⟨memo', hv⟩ := verifyInput_embedded_true Secp256k1.scheme (spending_spends [] _ [])
    (Script.template_eq_scriptHash_iff.mpr rfl) hbody rfl {}
  exact ⟨memo', hv, by decide +kernel⟩

end Transaction

end BitcoinSpend

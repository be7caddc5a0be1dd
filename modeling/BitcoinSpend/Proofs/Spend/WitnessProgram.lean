import BitcoinSpend.Curve.Ecdsa
import BitcoinSpend.Proofs.Machine.Witness
import BitcoinSpend.Proofs.Spend.Verify

namespace BitcoinSpend

namespace Script

theorem IsWitnessProgram.eq {s : Script} (hp : s.IsWitnessProgram) :
    ∃ program, s = [.op .zero, .data program] ∧ (program.length = 20 ∨ program.length = 32) := by
  rcases hp with ⟨h, rfl⟩ | ⟨h, rfl⟩
  · exact ⟨h.bytes, rfl, Or.inl h.length_eq⟩
  · exact ⟨h.bytes, rfl, Or.inr h.length_eq⟩

theorem scriptHash?_append_program (front : Script) (program : Bytes) :
    scriptHash? (front ++ [.op .zero, .data program]) = none := by
  refine scriptHash?_eq_none_of_getLast? ?_
  simp

theorem balanced_program (program : Bytes) : Balanced [.op .zero, .data program] :=
  balanced_of_endings_openings rfl rfl

end Script

namespace Context

variable {ctx : Context} {unlocking : Script} {program : Bytes}

/-- On a stack that holds something a program is just data, and the answer is whether it is true. -/
theorem evaluate_program_on_stack {st alt : Stack} {b : Bool} (hst : st ≠ [])
    (hv : (⟨[.op .zero, .data program], st, alt⟩ : State) ∈
      ctx.visited (unlocking ++ [.op .zero, .data program]))
    (hb : ctx.evaluate (unlocking ++ [.op .zero, .data program]) = .ok b) :
    b = true ↔ st.length + 2 + alt.length ≤ maxStackSize ∧ Number.isTrue program = true := by
  constructor
  · intro htrue
    subst htrue
    obtain ⟨m, hm⟩ := (evaluate_eq_ok_true_iff.mp hb).of_mem_visited hv
    obtain ⟨_, st', hzero, _, ha₁⟩ := State.Accepts.op (Stack.pushNumber 0) (fun _ => rfl) hm
    obtain rfl : [] :: st = st' := by simpa [Stack.pushNumber] using hzero
    obtain ⟨_, t, _, hstep, ht⟩ := ha₁.step_cons
    have hsize := (State.step_eq_ok_iff.mp hstep).2
    rcases State.step_data_ok rfl hstep with ⟨hempty, _⟩ | ⟨rfl, _⟩
    · simp [hst] at hempty
    · have htop := (State.accepts_nil_iff.mp ht).2
      simp only [List.length_cons] at hsize
      exact ⟨by omega, by simpa using htop⟩
  · intro hall
    obtain ⟨hsize, htop⟩ := hall
    obtain ⟨m, hm⟩ := State.run_of_mem_visited hv
    have hzero : (⟨[.op .zero, .data program], st, alt⟩ : State).step ctx =
        .ok ⟨[.data program], [] :: st, alt⟩ :=
      (State.step_op_iff (Stack.pushNumber 0) (fun _ => rfl)).mpr
        ⟨[] :: st, by simp [Stack.pushNumber], rfl, by simp; omega⟩
    have hpush : (⟨[.data program], [] :: st, alt⟩ : State).step ctx =
        .ok ⟨[], program :: [] :: st, alt⟩ :=
      State.step_push rfl (by simp [hst]) (by simp; omega)
    have hend : (⟨[], program :: [] :: st, alt⟩ : State).step ctx =
        .error (.completed (program :: [] :: st)) := rfl
    unfold evaluate execute at hb
    rw [← hm] at hb
    rcases m with _ | _ | _ | m
    · simp [State.run] at hb
    · simp [State.run, hzero] at hb
    · simp [State.run, hzero, hpush] at hb
    · simp only [State.run, hzero, hpush, hend, Ending.verdict, Ending.succeeds] at hb
      simpa [htop] using (Except.ok.inj hb).symm

/-- A script in the witness is run in place of the program of its hash. -/
theorem evaluate_true_program (hw : ctx.witness = [Script.trueBody]) :
    ctx.evaluate (Script.payToWitnessScriptHash (Sha256.digest Script.trueBody)) = .ok true := by
  have hstart : (⟨Script.payToWitnessScriptHash (Sha256.digest Script.trueBody), [], []⟩ :
      State).Accepts ctx 4 :=
    .of_true_program hw rfl (State.accepts_pushOne (by simp [maxStackSize]))
  refine evaluate_of_accepts hstart ?_
  simp only [Script.weight, Command.weight, Script.payToWitnessScriptHash]
  omega

end Context

namespace Transaction

variable {tx : Transaction} {scheme : SignatureScheme} {fetch : Fetcher} {index : Nat} {i : Input}
  {locking : Script} {memo memo' : DigestMemo}

theorem selectDigest_witnessProgram {d : InputDigest} (hp : locking.IsWitnessProgram)
    (hd : tx.selectDigest fetch index i locking memo = .ok d memo') : ∃ z, d = .segwit z := by
  rcases hp with ⟨h, rfl⟩ | ⟨h, rfl⟩
  · obtain ⟨z, _, hz⟩ := selectDigest_witnessKeyHash (Script.template_payToWitnessKeyHash h) hd
    exact ⟨z, hz⟩
  · exact selectDigest_witnessScriptHash (Script.template_payToWitnessScriptHash h) hd

/-- An output that is locked by a witness program is spent by what the program demands of the
witness, if the unlocking script leaves nothing on the stack. If it leaves something, the program
is a number that is true or not, whatever the witness is. -/
theorem witnessProgram_demands (hs : tx.Spends fetch index i locking)
    (hp : locking.IsWitnessProgram) {b : Bool}
    (hv : tx.verifyInput scheme fetch index memo = .ok b memo') :
    ∃ z, tx.selectDigest fetch index i locking memo = .ok (.segwit z) memo' ∧
      (b = true → (∃ s ∈ tx.visited scheme i locking (.segwit z),
          s.CompletesBefore (tx.context scheme i (.segwit z)) locking) ∨
        ∃ st alt, ⟨locking, st, alt⟩ ∈ tx.visited scheme i locking (.segwit z)) ∧
      ∀ st alt, ⟨locking, st, alt⟩ ∈ tx.visited scheme i locking (.segwit z) →
        (st = [] → b = true →
          (∀ h, locking.template = .witnessKeyHash h →
            tx.witnessDigest fetch index none none memo = .ok z memo' ∧
            ∃ front sig key, i.witness = front ++ [sig, key] ∧ hash160 key = h ∧
              (scheme.Signs z sig key ∨ HidesScript i.witness)) ∧
          ∀ h, locking.template = .witnessScriptHash h →
            ∃ body, i.witness.getLast? = some body ∧ Sha256.digest body = h) ∧
        (st ≠ [] → ∃ program, locking.witnessProgram? = some program ∧
          (b = true ↔
            st.length + 2 + alt.length ≤ maxStackSize ∧ Number.isTrue program = true)) := by
  obtain ⟨program, hlocking, hlen⟩ := hp.eq
  obtain ⟨d, hd, heval⟩ := (verifyInput_eq_ok_iff hs).mp hv
  obtain ⟨z, rfl⟩ := selectDigest_witnessProgram hp hd
  refine ⟨z, hd, ?_, fun st alt hmem => ⟨?_, ?_⟩⟩
  · intro hb
    subst hb hlocking
    have hsh := fun front => Script.scriptHash?_append_program front program
    rcases Context.tail_reached_or_program (Script.balanced_program program) hsh heval with
      hprogram | ⟨st, alt, _, hmem, _⟩
    · exact Or.inl hprogram
    · exact Or.inr ⟨st, alt, hmem⟩
  · intro hst hb
    subst hst hb
    obtain ⟨m, hm⟩ := (Context.evaluate_eq_ok_true_iff.mp heval).of_mem_visited hmem
    constructor
    · intro h ht
      obtain ⟨z', hz, hzz⟩ := selectDigest_witnessKeyHash ht hd
      cases hzz
      obtain rfl := Script.template_eq_witnessKeyHash_iff.mp ht
      exact ⟨hz, hm.payToWitnessKeyHash⟩
    · intro h ht
      obtain rfl := Script.template_eq_witnessScriptHash_iff.mp ht
      exact hm.payToWitnessScriptHash
  · intro hst
    subst hlocking
    exact ⟨program, rfl, Context.evaluate_program_on_stack hst hmem heval⟩

theorem witnessProgram_demands_true_script :
    ∃ z memo', (spending [] [Script.trueBody]).selectDigest
        (holding (Script.payToWitnessScriptHash (Sha256.digest Script.trueBody))) 0
        (spendingInput [] [Script.trueBody])
        (Script.payToWitnessScriptHash (Sha256.digest Script.trueBody)) {} = .ok (.segwit z) memo' ∧
      ∃ body, [Script.trueBody].getLast? = some body ∧
        Sha256.digest body = Sha256.digest Script.trueBody := by
  generalize hlocking :
    Script.payToWitnessScriptHash (Sha256.digest Script.trueBody) = locking
  have ht := Script.template_eq_witnessScriptHash_iff.mpr hlocking.symm
  have hs := spending_spends [] locking [Script.trueBody]
  have hscript : embeddedScript (some Script.trueBody) = .ok [.op .pushOne] := rfl
  have hcode : Script.bytes [.op .pushOne] = .ok [1, 0x51] := rfl
  obtain ⟨z, memo', hz⟩ :=
    exists_selectDigest_witnessScriptHash hs ht hscript hcode rfl {}
  have hv : (spending [] [Script.trueBody]).verifyInput Secp256k1.scheme (holding locking) 0 {} =
      .ok true memo' :=
    (verifyInput_eq_ok_iff hs).mpr ⟨_, hz, hlocking ▸ Context.evaluate_true_program rfl⟩
  obtain ⟨z, hz, _, hdemands⟩ := witnessProgram_demands hs (Or.inr ⟨_, hlocking.symm⟩) hv
  have hempty := (hdemands [] [] (Context.ofScript_mem_visited _ _)).1 rfl rfl
  exact ⟨z, memo', hz, hempty.2 _ ht⟩

/-- Spends that meet no demand: a constant in front of either program, a conditional that a witness
script closes behind the program, and a witness that hides a script. -/
theorem witnessProgram_bypassed :
    (∃ memo', (spending [.op .pushOne] []).verifyInput Secp256k1.scheme
      (holding (Script.payToWitnessKeyHash ⟨List.replicate 20 0x11, rfl⟩)) 0 {} = .ok true memo') ∧
    (∃ memo', (spending [.op .pushOne] [Script.trueBody]).verifyInput Secp256k1.scheme
      (holding (Script.payToWitnessScriptHash ⟨List.replicate 32 0x11, rfl⟩)) 0 {} =
        .ok true memo') ∧
    Sha256.digest Script.trueBody ≠ ⟨List.replicate 32 0x11, rfl⟩ ∧
    (∃ memo', (spending
        [.op .zero, .data (Sha256.digest [0x68, 0x51]).bytes, .op .zero, .op .ifTrue]
        [[0x68, 0x51]]).verifyInput Secp256k1.scheme
      (holding (Script.payToWitnessKeyHash ⟨List.replicate 20 0x11, rfl⟩)) 0 {} = .ok true memo') ∧
    ∃ memo', (spending []
        [[], (Sha256.digest Script.trueBody).bytes, [], Script.trueBody]).verifyInput
      Secp256k1.scheme (holding (Script.payToWitnessKeyHash (hash160 Script.trueBody))) 0 {} =
        .ok true memo' := by
  refine ⟨?_, ?_, by decide +kernel, ?_, ?_⟩
  · exact exists_verifyInput_of_run (by decide +kernel)
  · exact exists_verifyInput_of_run (by decide +kernel)
  · exact exists_verifyInput_of_run (by decide +kernel)
  · exact exists_verifyInput_of_run (by decide +kernel)

end Transaction

end BitcoinSpend

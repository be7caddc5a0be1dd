import BitcoinSpend.Curve.Ecdsa
import BitcoinSpend.Proofs.Machine.Witness

namespace BitcoinSpend

namespace Context

variable {ctx : Context} {h : FixedBytes 20}

theorem evaluate_payToWitnessKeyHash_of_accepts {n : Nat} (hne : ctx.witness ≠ [])
    (hn : n ≤ UInt64.size)
    (ha : (⟨ctx.witness.map .data ++ (Script.payToKeyHash h ++ []), [], []⟩ :
      State).Accepts ctx n) :
    ctx.evaluate (Script.payToWitnessKeyHash h) = .ok true := by
  have hstart := ha.of_keyHash_program (by decide)
  -- With a witness the budget of steps is out of reach.
  have hbudget : n + 2 ≤ ctx.budget (Script.payToWitnessKeyHash h) := by
    have hlong : ctx.witness.isEmpty = false := by simpa using hne
    simp only [budget, hlong, Script.weight, Command.weight, Script.payToWitnessKeyHash]
    simp only [Bool.false_eq_true, if_false]
    omega
  exact evaluate_eq_ok_true_iff.mpr (hstart.mono hbudget)

/-- Without programs at the front of the witness, the program of a key hash is the demand for a
signature by a key with the hash. -/
theorem evaluate_payToWitnessKeyHash_iff (hplain : leadingPrograms ctx.witness = []) :
    ctx.evaluate (Script.payToWitnessKeyHash h) = .ok true ↔
      ctx.witness.length + 2 ≤ maxStackSize ∧
      ∃ front sig key, ctx.witness = front ++ [sig, key] ∧ hash160 key = h ∧
        ctx.scheme.Signs ctx.digest sig key := by
  constructor
  · intro htrue
    have ha := evaluate_eq_ok_true_iff.mp htrue
    constructor
    · obtain ⟨_, hrun⟩ := State.Accepts.keyHash_program ha
      obtain ⟨_, hlock⟩ := hrun.push_items (by simpa using hplain)
      simpa using hlock.payToKeyHash_size
    · obtain ⟨front, sig, key, hw, hkey, hsigns | ⟨_, hmem⟩⟩ :=
        State.Accepts.payToWitnessKeyHash_signs ha
      · exact ⟨front, sig, key, hw, hkey, hsigns⟩
      · simp [hplain] at hmem
  · intro hall
    obtain ⟨hsize, front, sig, key, hw, hkey, hsigns⟩ := hall
    have hlength : ctx.witness.length = front.length + 2 := by simp [hw]
    have hend : (⟨[], [1] :: front.reverse, []⟩ : State).Accepts ctx 1 :=
      State.accepts_nil_iff.mpr ⟨Nat.one_pos, rfl⟩
    have hlock := hend.of_payToKeyHash hkey hsigns (by
      simp only [List.length_reverse, List.length_nil]
      omega)
    have hstack : key :: sig :: front.reverse = ctx.witness.reverse ++ [] := by simp [hw]
    rw [hstack] at hlock
    have hrun := hlock.of_push_items (by simpa using hplain) (by
      simp only [List.length_nil]
      omega)
    refine evaluate_payToWitnessKeyHash_of_accepts (by simp [hw]) ?_ hrun
    have hmax : maxStackSize + 6 ≤ UInt64.size := by decide
    omega

/-- A key that is a script is run behind its refused signature, if its hash stands in front. -/
theorem evaluate_hidden_script {key : Bytes} {script : Script} {n : Nat}
    (hkey : hash160 key = h) (hscript : Script.ofBody key = .ok script)
    (hlen : key.length ≠ 20 ∧ key.length ≠ 32)
    (hw : ctx.witness = [[], (Sha256.digest key).bytes, [], key]) (hn : n + 9 ≤ UInt64.size)
    (ha : (⟨ctx.witness.dropLast.map .data ++ script, [[]], []⟩ : State).Accepts ctx n) :
    ctx.evaluate (Script.payToWitnessKeyHash h) = .ok true := by
  have hadd : Expands ctx (Sha256.digest key).bytes (ctx.witness.dropLast.map .data ++ script) :=
    .scriptHash (by simp [hw]) hscript
  have hrefused : ctx.accepts [] key = false := rfl
  have hanswer : (⟨ctx.witness.dropLast.map .data ++ script,
      (if ctx.accepts [] key then [1] else []) :: [], []⟩ : State).Accepts ctx n := by
    rw [hrefused]
    exact ha
  have hlock := hanswer.of_payToKeyHash_answer hkey (by decide)
  have hplain : leadingPrograms [[], key] = [] := by simp [leadingPrograms, hlen]
  have hpushed : (⟨[[], key].map .data ++ (Script.payToKeyHash h ++
      (ctx.witness.dropLast.map .data ++ script)), [], []⟩ : State).Accepts ctx (n + 5 + 2) := by
    rw [show [key, []] = [[], key].reverse ++ [] from rfl] at hlock
    exact hlock.of_push_items (by simpa using hplain) (by simp [maxStackSize])
  -- The empty item and the hash of the key are taken off, and the script is put behind.
  have hstep : (⟨.data (Sha256.digest key).bytes ::
      ([[], key].map .data ++ (Script.payToKeyHash h ++ [])), [[]], []⟩ : State).step ctx =
        .ok ⟨[[], key].map .data ++ (Script.payToKeyHash h ++ []) ++
          (ctx.witness.dropLast.map .data ++ script), [], []⟩ :=
    State.step_completes hadd (State.scriptHash?_items_eq_none [[], key] []) (by decide)
  rw [List.append_nil, List.append_assoc] at hstep
  have hprogram := hpushed.of_step hstep
  have hrun : (⟨ctx.witness.map .data ++ (Script.payToKeyHash h ++ []), [], []⟩ :
      State).Accepts ctx (n + 9) := by
    rw [hw, List.append_nil]
    refine .of_push ?_ (by simp) (by decide) hprogram
    exact State.scriptHash?_items_eq_none [(Sha256.digest key).bytes, [], key] []
  exact evaluate_payToWitnessKeyHash_of_accepts (by simp [hw]) hn hrun

/-- An accepted program of a key hash had a key with the hash at the end of the witness, and a
signature that verifies for it in front, unless the key is a script whose program stands at the
front of the witness. Without programs there the signature is all that it demands. With the program
of a key that is a script, the script decides. -/
theorem witnessKeyHash_demands (ctx : Context) (h : FixedBytes 20) :
    (ctx.evaluate (Script.payToWitnessKeyHash h) = .ok true →
      ∃ front sig key, ctx.witness = front ++ [sig, key] ∧ hash160 key = h ∧
        (ctx.scheme.Signs ctx.digest sig key ∨
          (∃ script, Script.ofBody key = .ok script) ∧
            (Sha256.digest key).bytes ∈ leadingPrograms ctx.witness)) ∧
    (leadingPrograms ctx.witness = [] →
      (ctx.evaluate (Script.payToWitnessKeyHash h) = .ok true ↔
        ctx.witness.length + 2 ≤ maxStackSize ∧
        ∃ front sig key, ctx.witness = front ++ [sig, key] ∧ hash160 key = h ∧
          ctx.scheme.Signs ctx.digest sig key)) ∧
    ∀ key script n, hash160 key = h → Script.ofBody key = .ok script →
      key.length ≠ 20 ∧ key.length ≠ 32 →
      ctx.witness = [[], (Sha256.digest key).bytes, [], key] → n + 9 ≤ UInt64.size →
      (⟨ctx.witness.dropLast.map .data ++ script, [[]], []⟩ : State).Accepts ctx n →
      ctx.evaluate (Script.payToWitnessKeyHash h) = .ok true := by
  refine ⟨fun htrue => ?_, evaluate_payToWitnessKeyHash_iff, ?_⟩
  · have ha := evaluate_eq_ok_true_iff.mp htrue
    exact State.Accepts.payToWitnessKeyHash_signs ha
  · intro key script n hkey hscript hlen hw hn ha
    exact evaluate_hidden_script hkey hscript hlen hw hn ha

/-- The witness of four items that spends any program of the hash of a true script. -/
def hidingTrueScript : Context where
  scheme := Secp256k1.scheme
  digest := FixedBytes.zero 32
  witness := [[], (Sha256.digest Script.trueBody).bytes, [], Script.trueBody]
  lockTime := none

theorem witnessKeyHash_without_signature :
    hidingTrueScript.evaluate (Script.payToWitnessKeyHash (hash160 Script.trueBody)) = .ok true ∧
      ¬∃ front sig key, hidingTrueScript.witness = front ++ [sig, key] ∧
        hidingTrueScript.scheme.Signs hidingTrueScript.digest sig key := by
  constructor
  · decide +kernel
  · intro hall
    obtain ⟨front, sig, key, hw, hsigns, _⟩ := hall
    have hlast : [[], (Sha256.digest Script.trueBody).bytes] ++ [[], Script.trueBody] =
        front ++ [sig, key] := hw
    obtain ⟨_, hpair⟩ := List.append_inj' hlast rfl
    exact hsigns (List.cons.inj hpair).1.symm

end Context

end BitcoinSpend

import BitcoinSpend.Curve.Ecdsa
import BitcoinSpend.Proofs.Machine.Residue
import BitcoinSpend.Proofs.Machine.Template
import BitcoinSpend.Proofs.Script.Wire

namespace BitcoinSpend

namespace Script

theorem weight_append (s t : Script) : weight (s ++ t) = s.weight + t.weight := by
  induction s with
  | nil => simp [weight]
  | cons c s ih =>
    rw [List.cons_append, weight, weight, ih]
    omega

theorem weight_le_of_sublist {s t : Script} (h : s.Sublist t) : s.weight ≤ t.weight := by
  induction h with
  | slnil => exact Nat.le_refl 0
  | cons c _ ih =>
    rw [weight]
    omega
  | cons_cons c _ ih =>
    rw [weight, weight]
    omega

end Script

theorem WireCommand.weight_command_le (w : WireCommand) :
    w.command.weight ≤ 6 * w.bytes.length := by
  cases w with
  | op code _ => simp [command, bytes, Command.weight]
  | direct bs _ => simp [command, bytes, Command.weight]
  | oneByte bs _ =>
    simp only [command, bytes, Command.weight, List.length_cons]
    omega
  | twoBytes bs _ =>
    simp only [command, bytes, Command.weight, List.length_append, List.length_cons]
    omega

namespace Script

/-- The commands of a body weigh less than a push of the body does. -/
theorem weight_lt_of_ofBody {body : Bytes} {s : Script} (h : ofBody body = .ok s) :
    s.weight + 6 ≤ (Command.data body).weight := by
  obtain ⟨ws, rfl, rfl⟩ := ofBody_eq_ok_iff.mp h
  have hle : weight (WireScript.script ws) ≤ 6 * (WireScript.body ws).length := by
    induction ws with
    | nil => exact Nat.le_refl 0
    | cons w ws ih =>
      have hw := w.weight_command_le
      have hws := ih (ofBody_eq_ok_iff.mpr ⟨ws, rfl, rfl⟩)
      rw [WireScript.body_cons, List.length_append]
      show w.command.weight + weight (WireScript.script ws) ≤ _
      omega
  rw [Command.weight]
  omega

end Script

/-- Without a witness only programs of key hashes are replaced, by the scripts of the key hashes. -/
theorem Expands.eq_payToKeyHash {ctx : Context} {program : Bytes} {added : Script}
    (h : Expands ctx program added) (hw : ctx.witness = []) :
    ∃ k : FixedBytes 20, program = k.bytes ∧ added = Script.payToKeyHash k := by
  cases h with
  | keyHash k => exact ⟨k, rfl, by rw [hw]; rfl⟩
  | scriptHash hlast _ => simp [hw] at hlast

namespace State

variable {ctx : Context} {n : Nat} {q : Script} {st alt : Stack}

/-- A run ends within so many steps. -/
def Halts (ctx : Context) (n : Nat) (s : State) : Prop :=
  ∃ ending, s.run ctx n = some ending

theorem Halts.mono {s : State} {m : Nat} (h : s.Halts ctx m) (hmn : m ≤ n) : s.Halts ctx n := by
  obtain ⟨ending, hrun⟩ := h
  exact ⟨ending, run_of_le hrun hmn⟩

theorem halts_of_step {s : State} (h : ∀ t, s.step ctx = .ok t → t.Halts ctx n) :
    s.Halts ctx (n + 1) := by
  unfold Halts
  rw [run]
  cases hs : s.step ctx with
  | error e => exact ⟨e, rfl⟩
  | ok t => exact h t hs

/-- The script of a key hash takes its five steps on any stack. When the hash in it is pushed, there
are two elements on the stack, which make no witness program with it. -/
theorem halts_payToKeyHash {h : FixedBytes 20} (hq : ∀ st', (⟨q, st', alt⟩ : State).Halts ctx n) :
    (⟨Script.payToKeyHash h ++ q, st, alt⟩ : State).Halts ctx (n + 5) := by
  refine halts_of_step fun t ht => ?_
  obtain ⟨_, hdup, rfl, _⟩ := (step_op_iff (StackInstruction.dup 1).run fun _ => rfl).mp ht
  obtain ⟨key, rest, rfl, rfl⟩ := StackInstruction.run_dup_one_eq_ok_iff.mp hdup
  refine halts_of_step fun t ht => ?_
  obtain ⟨_, hhash, rfl, _⟩ :=
    (step_op_iff (StackInstruction.hash .hash160).run fun _ => rfl).mp ht
  obtain ⟨_, _, hst, rfl⟩ := StackInstruction.run_hash_eq_ok_iff.mp hhash
  obtain ⟨rfl, rfl⟩ := List.cons.inj hst
  refine halts_of_step fun t ht => ?_
  rcases step_data_ok rfl ht with ⟨hempty, _⟩ | ⟨rfl, _⟩
  · simp at hempty
  refine halts_of_step fun t ht => ?_
  obtain ⟨_, _, rfl, _⟩ := (step_op_iff StackInstruction.equalVerify.run fun _ => rfl).mp ht
  refine halts_of_step fun t ht => ?_
  obtain ⟨_, _, rfl, _⟩ := (step_op_iff (pushAnswer ctx.checkSig) fun _ => rfl).mp ht
  exact hq _

theorem halts_payToKeyHashes (hs : List (FixedBytes 20)) :
    (⟨hs.flatMap Script.payToKeyHash, st, alt⟩ : State).Halts ctx (5 * hs.length + 1) := by
  induction hs generalizing st with
  | nil => exact ⟨.completed st, rfl⟩
  | cons h hs ih =>
    rw [List.flatMap_cons, List.length_cons]
    exact halts_payToKeyHash fun _ => ih

/-- Without a witness, a step takes weight off what stands in front of scripts of key hashes. A push
that completes a program weighs more than the five steps of the script that it brings. -/
theorem step_lighter (hw : ctx.witness = []) {c : Command} {front : Script}
    {hs : List (FixedBytes 20)} {t : State}
    (h : (⟨c :: (front ++ hs.flatMap Script.payToKeyHash), st, alt⟩ : State).step ctx = .ok t) :
    ∃ (front' : Script) (hs' : List (FixedBytes 20)),
      t.queue = front' ++ hs'.flatMap Script.payToKeyHash ∧
        front'.weight + 5 * hs'.length < Script.weight (c :: front) + 5 * hs.length := by
  rw [Script.weight]
  cases c with
  | op code =>
    rcases step_op_queue h with hq | ⟨b, condition, hb, hq⟩
    · exact ⟨front, hs, hq, by rw [Command.weight]; omega⟩
    · obtain ⟨front', hf⟩ :=
        Conditional.branch_append_of_split? condition (Script.balanced_payToKeyHashes hs) hb
      have hle := Script.weight_le_of_sublist (Conditional.branch_append_rest_sublist condition hb)
      rw [hf, Script.weight_append, Script.weight_append] at hle
      exact ⟨front', hs, hq.trans hf, by rw [Command.weight]; omega⟩
  | data bs =>
    cases hsh : Script.scriptHash? (front ++ hs.flatMap Script.payToKeyHash) with
    | none =>
      rcases step_data_ok hsh h with ⟨_, _, hadd, rfl⟩ | ⟨rfl, _⟩
      · obtain ⟨k, rfl, rfl⟩ := hadd.eq_payToKeyHash hw
        have hlen := k.length_eq
        refine ⟨front, hs ++ [k], by simp, ?_⟩
        rw [List.length_append, List.length_singleton, Command.weight]
        omega
      · exact ⟨front, hs, rfl, by rw [Command.weight]; omega⟩
    | some k =>
      obtain ⟨_, script, hscript, hexpand⟩ := step_redeem_ok hsh h
      have hlt := Script.weight_lt_of_ofBody hscript
      rcases expandProgram_ok hexpand with ⟨_, _, _, hadd, rfl⟩ | ⟨rfl, _⟩
      · obtain ⟨k', _, rfl⟩ := hadd.eq_payToKeyHash hw
        refine ⟨script, [k'], by simp, ?_⟩
        rw [List.length_singleton]
        omega
      · refine ⟨script, [], by simp, ?_⟩
        rw [List.length_nil]
        omega

theorem halts_of_weight_lt (hw : ctx.witness = []) {front : Script} {hs : List (FixedBytes 20)}
    (hn : front.weight + 5 * hs.length < n) :
    (⟨front ++ hs.flatMap Script.payToKeyHash, st, alt⟩ : State).Halts ctx n := by
  -- Each step in front of the scripts of key hashes takes one from `n`, and the weight stays below.
  induction n generalizing front hs st alt with
  | zero => omega
  | succ n ih =>
    cases front with
    | nil =>
      rw [Script.weight] at hn
      exact (halts_payToKeyHashes hs).mono (by omega)
    | cons c front =>
      refine halts_of_step fun t ht => ?_
      obtain ⟨queue, st', alt'⟩ := t
      obtain ⟨front', hs', rfl, hlt⟩ := step_lighter hw ht
      exact ih (by omega)

end State

/-- Without a witness the run of a script ends, within a number of steps that its weight bounds: no
steps go on for longer, and with more steps than that the run ends alike. -/
theorem Context.execute_halts {ctx : Context} (hw : ctx.witness = []) (s : Script) :
    (∀ path t, State.Chain ctx (State.ofScript s) path t → path.length ≤ s.weight) ∧
      ∃ ending, ctx.execute s = some ending ∧
        ∀ n, s.weight < n → (State.ofScript s).run ctx n = some ending := by
  have hstart : State.ofScript s = ⟨s ++ [].flatMap Script.payToKeyHash, [], []⟩ := by
    simp [State.ofScript]
  obtain ⟨ending, hrun⟩ : (State.ofScript s).Halts ctx (s.weight + 1) := by
    rw [hstart]
    exact State.halts_of_weight_lt hw (Nat.lt_succ_self _)
  refine ⟨fun path t hchain => ?_, ending, ?_, fun n hn => State.run_of_le hrun hn⟩
  · by_contra hlong
    have hpath := hchain.run_eq 0
    rw [State.run_of_le hrun (by omega)] at hpath
    cases hpath
  · exact State.run_of_le hrun (by unfold budget; omega)

/-- A redeem script that is the program of a key hash, behind which the script of the key hash is
brought in. -/
def Script.nestedProgram : Script :=
  .data (0x00 :: 0x14 :: List.replicate 20 0x00) ::
    payToScriptHash (hash160 (0x00 :: 0x14 :: List.replicate 20 0x00))

theorem Context.execute_nestedProgram :
    ∃ ending, (⟨Secp256k1.scheme, FixedBytes.zero 32, [], none⟩ : Context).execute
        Script.nestedProgram = some ending ∧
      ∀ n, 266 < n → (State.ofScript Script.nestedProgram).run
        ⟨Secp256k1.scheme, FixedBytes.zero 32, [], none⟩ n = some ending := by
  have hweight : Script.nestedProgram.weight = 266 := by
    simp [Script.nestedProgram, Script.payToScriptHash, Script.weight, Command.weight,
      FixedBytes.length_eq]
  have hw : (⟨Secp256k1.scheme, FixedBytes.zero 32, [], none⟩ : Context).witness = [] := rfl
  obtain ⟨_, ending, hexecute, hrun⟩ := execute_halts hw Script.nestedProgram
  exact ⟨ending, hexecute, hweight ▸ hrun⟩

end BitcoinSpend

import BitcoinSpend.Proofs.Machine.Run

namespace BitcoinSpend

/-- The commands that a witness program stands for: the witness and a script behind it. -/
inductive Expands (ctx : Context) : Bytes → Script → Prop
  | keyHash (h : FixedBytes 20) :
    Expands ctx h.bytes (ctx.witness.map .data ++ Script.payToKeyHash h)
  | scriptHash {body : Bytes} {script : Script} : ctx.witness.getLast? = some body →
    Script.ofBody body = .ok script →
    Expands ctx (Sha256.digest body).bytes (ctx.witness.dropLast.map .data ++ script)

theorem Expands.length {ctx : Context} {program : Bytes} {added : Script}
    (h : Expands ctx program added) : program.length = 20 ∨ program.length = 32 := by
  cases h with
  | keyHash h => exact Or.inl h.length_eq
  | scriptHash _ _ => exact Or.inr (Sha256.digest _).length_eq

theorem FixedBytes.ext {n : Nat} {a b : FixedBytes n} (h : a.bytes = b.bytes) : a = b := by
  cases a
  cases b
  simpa using h

theorem FixedBytes.bytes_ne_nil {n : Nat} (b : FixedBytes (n + 1)) : b.bytes ≠ [] :=
  List.ne_nil_of_length_eq_add_one b.length_eq

@[simp] theorem FixedBytes.ofBytes?_bytes {n : Nat} (b : FixedBytes n) :
    FixedBytes.ofBytes? n b.bytes = some b := by
  simp [FixedBytes.ofBytes?, b.length_eq]

theorem FixedBytes.ofBytes?_eq_some_iff {n : Nat} {bs : Bytes} {b : FixedBytes n} :
    FixedBytes.ofBytes? n bs = some b ↔ b.bytes = bs := by
  constructor
  · intro h
    unfold FixedBytes.ofBytes? at h
    split at h
    next => cases Option.some.inj h; rfl
    next => simp at h
  · intro heq
    subst heq
    exact b.ofBytes?_bytes

namespace State

variable {ctx : Context}

/-- The witness program that the push at the front of the queue completes. -/
def program? (s : State) : Option Bytes :=
  match s.queue, s.stack with
  | .data bs :: _, [[]] => if bs.length = 20 ∨ bs.length = 32 then some bs else none
  | _, _ => none

theorem onStack_eq_ok_iff {s t : State} {act : StackM Failure Unit} :
    s.onStack act = .ok t ↔ ∃ st, act s.stack = .ok () st ∧ t = { s with stack := st } := by
  unfold onStack
  split
  next st hact => simp [hact, eq_comm]
  next reason st hact => simp [hact]

/-- A stack of an empty string and a program is replaced; every other stack stays. -/
theorem expandProgram_ok {s t : State} (h : s.expandProgram ctx = .ok t) :
    (∃ program added, s.stack = [program, []] ∧ Expands ctx program added ∧
      t = ⟨s.queue ++ added, [], s.alt⟩) ∨
    (t = s ∧ ∀ program, s.stack = [program, []] → program.length ≠ 20 ∧ program.length ≠ 32) := by
  unfold expandProgram at h
  split at h
  next program hst =>
    split at h
    next h20 =>
      cases Except.ok.inj h
      exact Or.inl ⟨program, _, hst, Expands.keyHash ⟨program, h20⟩, rfl⟩
    next h20 =>
      split at h
      next h32 =>
        split at h
        next => simp at h
        next body hlast =>
          split at h
          next => simp at h
          next hbody =>
            split at h
            next => simp at h
            next script hscript =>
              cases Except.ok.inj h
              have hprogram : (Sha256.digest body).bytes = program := by simpa using hbody
              subst hprogram
              exact Or.inl ⟨_, _, hst, Expands.scriptHash hlast hscript, rfl⟩
      next h32 =>
        cases Except.ok.inj h
        refine Or.inr ⟨rfl, ?_⟩
        intro other hother
        have : program = other := by simpa using hst.symm.trans hother
        subst this
        exact ⟨h20, h32⟩
  next hst =>
    cases Except.ok.inj h
    exact Or.inr ⟨rfl, fun program hp => absurd hp (hst program)⟩

theorem expandProgram_of_length {s : State}
    (h : ∀ program, s.stack = [program, []] → program.length ≠ 20 ∧ program.length ≠ 32) :
    s.expandProgram ctx = .ok s := by
  unfold expandProgram
  split
  next program hst =>
    obtain ⟨h20, h32⟩ := h program hst
    simp [h20, h32]
  next => rfl

theorem expandProgram_of_expands {program : Bytes} {added q : Script} {alt : Stack}
    (h : Expands ctx program added) :
    (⟨q, [program, []], alt⟩ : State).expandProgram ctx = .ok ⟨q ++ added, [], alt⟩ := by
  cases h with
  | keyHash h => simp [expandProgram, h.length_eq]
  | scriptHash hlast hscript => simp [expandProgram, (Sha256.digest _).length_eq, hlast, hscript]

/-- A push that completes a program is replaced by what the program stands for. -/
theorem step_completes {program : Bytes} {added q : Script} {alt : Stack}
    (h : Expands ctx program added) (hq : q.scriptHash? = none)
    (hsize : alt.length ≤ maxStackSize) :
    (⟨.data program :: q, [[]], alt⟩ : State).step ctx = .ok ⟨q ++ added, [], alt⟩ := by
  refine step_eq_ok_iff.mpr ⟨?_, by simpa using hsize⟩
  simp only [runCommand, pushData, hq]
  exact expandProgram_of_expands h

/-- A push that is no redeem script is put on the stack, unless it completes a program. -/
theorem step_data_ok {bs : Bytes} {q : Script} {st alt : Stack} {t : State}
    (hq : q.scriptHash? = none) (h : (⟨.data bs :: q, st, alt⟩ : State).step ctx = .ok t) :
    (st = [[]] ∧ ∃ added, Expands ctx bs added ∧ t = ⟨q ++ added, [], alt⟩) ∨
    (t = ⟨q, bs :: st, alt⟩ ∧ (⟨.data bs :: q, st, alt⟩ : State).program? = none) := by
  obtain ⟨hrun, _⟩ := step_eq_ok_iff.mp h
  simp only [runCommand, pushData, hq] at hrun
  rcases expandProgram_ok hrun with ⟨program, added, hst, hadd, rfl⟩ | ⟨rfl, hne⟩
  · obtain ⟨rfl, rfl⟩ : bs = program ∧ st = [[]] := by simpa using hst
    exact Or.inl ⟨rfl, added, hadd, rfl⟩
  · refine Or.inr ⟨rfl, ?_⟩
    by_cases hst : st = [[]]
    · have := hne bs (by simp [hst])
      simp [program?, hst, this]
    · unfold program?
      split
      next heq => simp_all
      next => rfl

/-- The last push before a script hash must have that hash, and is run as a script. -/
theorem step_redeem_ok {bs : Bytes} {q : Script} {h : FixedBytes 20} {st alt : Stack} {t : State}
    (hq : q.scriptHash? = some h) (hs : (⟨.data bs :: q, st, alt⟩ : State).step ctx = .ok t) :
    hash160 bs = h ∧ ∃ script, Script.ofBody bs = .ok script ∧
      (⟨script, st, alt⟩ : State).expandProgram ctx = .ok t := by
  obtain ⟨hrun, _⟩ := step_eq_ok_iff.mp hs
  simp only [runCommand, pushData, hq] at hrun
  split at hrun
  next => simp [fail] at hrun
  next hh =>
    split at hrun
    next => simp at hrun
    next script hscript => exact ⟨by simpa using hh, script, hscript, hrun⟩

/-- An opcode leaves the queue behind it, or one branch of the conditional that it opens. -/
theorem step_op_queue {code : Opcode} {q : Script} {st alt : Stack} {t : State}
    (h : (⟨.op code :: q, st, alt⟩ : State).step ctx = .ok t) :
    t.queue = q ∨ ∃ c condition, Conditional.split? q = some c ∧
      t.queue = c.branch condition ++ c.rest := by
  obtain ⟨hrun, _⟩ := step_eq_ok_iff.mp h
  simp only [runCommand] at hrun
  cases hi : code.instruction with
  | conditional negated =>
    simp only [runInstruction, hi, runConditional, fail] at hrun
    split at hrun
    next => simp at hrun
    next top rest =>
      split at hrun
      next => simp at hrun
      next c hc =>
        cases Except.ok.inj hrun
        exact Or.inr ⟨c, _, hc, rfl⟩
  | nop =>
    simp only [runInstruction, hi] at hrun
    cases Except.ok.inj hrun
    exact Or.inl rfl
  | toAlt =>
    simp only [runInstruction, hi, moveToAlt, fail] at hrun
    split at hrun
    next => simp at hrun
    next => cases Except.ok.inj hrun; exact Or.inl rfl
  | fromAlt =>
    simp only [runInstruction, hi, moveFromAlt, fail] at hrun
    split at hrun
    next => simp at hrun
    next => cases Except.ok.inj hrun; exact Or.inl rfl
  | invalid reason => simp [runInstruction, hi, fail] at hrun
  | _ =>
    simp only [runInstruction, hi] at hrun
    obtain ⟨st', _, rfl⟩ := onStack_eq_ok_iff.mp hrun
    exact Or.inl rfl

end State

end BitcoinSpend

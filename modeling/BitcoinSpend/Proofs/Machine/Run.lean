import BitcoinSpend.Machine.Run
import Mathlib.Tactic.Common

namespace BitcoinSpend

namespace State

variable {ctx : Context}

theorem step_eq_ok_iff {c : Command} {q : Script} {st alt : Stack} {t : State} :
    (⟨c :: q, st, alt⟩ : State).step ctx = .ok t ↔
      runCommand ctx c ⟨q, st, alt⟩ = .ok t ∧ t.stack.length + t.alt.length ≤ maxStackSize := by
  simp only [step]
  cases hr : runCommand ctx c ⟨q, st, alt⟩ with
  | error e => simp [Except.bind]
  | ok u =>
    simp only [Except.bind, checkSize, fail]
    split
    next hbig =>
      simp only [reduceCtorEq, Except.ok.injEq, false_iff, not_and]
      intro heq
      subst heq
      omega
    next hsmall =>
      simp only [Except.ok.injEq, iff_self_and]
      intro heq
      subst heq
      omega

theorem onStack_ne_completed {s : State} {act : StackM Failure Unit} {stack : Stack} :
    s.onStack act ≠ .error (.completed stack) := by
  unfold onStack
  split <;> simp

theorem expandProgram_ne_completed {s : State} {stack : Stack} :
    s.expandProgram ctx ≠ .error (.completed stack) := by
  unfold expandProgram
  repeat' split
  all_goals simp

theorem pushData_ne_completed {s : State} {bs : Bytes} {stack : Stack} :
    s.pushData ctx bs ≠ .error (.completed stack) := by
  unfold pushData fail
  split
  · exact expandProgram_ne_completed
  · split
    · simp
    · split
      · simp
      · exact expandProgram_ne_completed

theorem runInstruction_ne_completed {s : State} {i : Instruction} {stack : Stack} :
    s.runInstruction ctx i ≠ .error (.completed stack) := by
  cases i with
  | conditional negated =>
    simp only [runInstruction, runConditional, fail]
    repeat' split
    all_goals simp
  | toAlt =>
    simp only [runInstruction, moveToAlt, fail]
    split <;> simp
  | fromAlt =>
    simp only [runInstruction, moveFromAlt, fail]
    split <;> simp
  | nop => simp [runInstruction]
  | invalid reason => simp [runInstruction, fail]
  | _ =>
    simp only [runInstruction]
    exact onStack_ne_completed

/-- A run completes only when its queue is empty. -/
theorem step_ne_completed {c : Command} {q : Script} {st alt stack : Stack} :
    (⟨c :: q, st, alt⟩ : State).step ctx ≠ .error (.completed stack) := by
  have hrun : runCommand ctx c ⟨q, st, alt⟩ ≠ .error (.completed stack) := by
    cases c with
    | op code => exact runInstruction_ne_completed
    | data bs => exact pushData_ne_completed
  simp only [step]
  cases hr : runCommand ctx c ⟨q, st, alt⟩ with
  | error e => simpa [Except.bind, hr] using hrun
  | ok u =>
    simp only [Except.bind, checkSize, fail]
    split <;> simp

theorem run_of_le {s : State} {m n : Nat} {ending : Ending} (h : s.run ctx m = some ending)
    (hmn : m ≤ n) : s.run ctx n = some ending := by
  induction m generalizing s n with
  | zero => simp [run] at h
  | succ m ih =>
    obtain ⟨n, rfl⟩ : ∃ k, n = k + 1 := ⟨n - 1, by omega⟩
    rw [run] at h ⊢
    cases hs : s.step ctx with
    | error e => rwa [hs] at h
    | ok t =>
      rw [hs] at h
      exact ih h (by omega)

/-- The run from a state ends within so many steps and leaves a true element on top. -/
def Accepts (ctx : Context) (steps : Nat) (s : State) : Prop :=
  ∃ stack, s.run ctx steps = some (.completed stack) ∧ stack.head?.any Number.isTrue

theorem accepts_nil_iff {n : Nat} {st alt : Stack} :
    (⟨[], st, alt⟩ : State).Accepts ctx n ↔ 0 < n ∧ st.head?.any Number.isTrue := by
  cases n with
  | zero => simp [Accepts, run]
  | succ n => simp [Accepts, run, step]

theorem not_accepts_nil {n : Nat} {rest alt : Stack} :
    ¬(⟨[], [] :: rest, alt⟩ : State).Accepts ctx n := by
  simp [accepts_nil_iff, Number.isTrue]

theorem Accepts.of_step {n : Nat} {s t : State} (hs : s.step ctx = .ok t) (ht : t.Accepts ctx n) :
    s.Accepts ctx (n + 1) := by
  obtain ⟨stack, hrun, htop⟩ := ht
  exact ⟨stack, by simpa [run, hs] using hrun, htop⟩

theorem Accepts.step_cons {n : Nat} {c : Command} {q : Script} {st alt : Stack}
    (ha : (⟨c :: q, st, alt⟩ : State).Accepts ctx n) :
    ∃ m t, n = m + 1 ∧ (⟨c :: q, st, alt⟩ : State).step ctx = .ok t ∧ t.Accepts ctx m := by
  obtain ⟨stack, hrun, htop⟩ := ha
  cases n with
  | zero => simp [run] at hrun
  | succ m =>
    cases hs : (⟨c :: q, st, alt⟩ : State).step ctx with
    | error e =>
      simp only [run, hs, Option.some.injEq] at hrun
      subst hrun
      exact absurd hs step_ne_completed
    | ok t => exact ⟨m, t, rfl, rfl, stack, by simpa [run, hs] using hrun, htop⟩

theorem Accepts.mono {m n : Nat} {s : State} (ha : s.Accepts ctx m) (hmn : m ≤ n) :
    s.Accepts ctx n := by
  obtain ⟨stack, hrun, htop⟩ := ha
  exact ⟨stack, run_of_le hrun hmn, htop⟩

/-- Steps from one state to another, with the states they start from, in order. -/
inductive Chain (ctx : Context) : State → List State → State → Prop
  | refl (s : State) : Chain ctx s [] s
  | step {s t u : State} {path : List State} : s.step ctx = .ok t → Chain ctx t path u →
      Chain ctx s (s :: path) u

theorem Chain.single {s t : State} (hs : s.step ctx = .ok t) : Chain ctx s [s] t :=
  .step hs (.refl t)

theorem Chain.trans {s t u : State} {path rest : List State} (h : Chain ctx s path t)
    (h' : Chain ctx t rest u) : Chain ctx s (path ++ rest) u := by
  induction h with
  | refl s => exact h'
  | step hs _ ih => exact .step hs (ih h')

theorem Chain.run_eq {s t : State} {path : List State} (h : Chain ctx s path t) (n : Nat) :
    s.run ctx (path.length + n) = t.run ctx n := by
  induction h with
  | refl s => rw [List.length_nil, Nat.zero_add]
  | step hs _ ih =>
    rw [List.length_cons, Nat.add_right_comm, run, hs]
    exact ih

theorem Chain.run_of_error {s t : State} {path : List State} {ending : Ending}
    (h : Chain ctx s path t) (ht : t.step ctx = .error ending) :
    s.run ctx (path.length + 1) = some ending := by
  rw [h.run_eq, run, ht]

theorem Accepts.of_chain {s t : State} {path : List State} {n : Nat} (h : Chain ctx s path t)
    (ha : t.Accepts ctx n) : s.Accepts ctx (path.length + n) := by
  obtain ⟨stack, hrun, htop⟩ := ha
  exact ⟨stack, (h.run_eq n).trans hrun, htop⟩

/-- What is reached from an accepting state is visited and accepting. -/
theorem Chain.visited {s t : State} {path : List State} (h : Chain ctx s path t) {n : Nat}
    (ha : s.Accepts ctx n) :
    ∃ m after, s.visited ctx n = path ++ t :: after ∧ t.Accepts ctx m := by
  induction h generalizing n with
  | refl s =>
    obtain ⟨stack, hrun, htop⟩ := ha
    cases n with
    | zero => simp [run] at hrun
    | succ n =>
      refine ⟨n + 1, ?_⟩
      cases hs : s.step ctx with
      | error e => exact ⟨[], by simp [State.visited, hs], stack, hrun, htop⟩
      | ok u => exact ⟨u.visited ctx n, by simp [State.visited, hs], stack, hrun, htop⟩
  | @step s t u path hs _ ih =>
    obtain ⟨queue, st, alt⟩ := s
    cases queue with
    | nil => simp [State.step] at hs
    | cons c q =>
      obtain ⟨k, t', rfl, hs', ht⟩ := ha.step_cons
      have htt : t' = t := Except.ok.inj (hs'.symm.trans hs)
      subst htt
      obtain ⟨m, after, hv, hu⟩ := ih ht
      exact ⟨m, after, by simp [State.visited, hs, hv], hu⟩

theorem Chain.mem_visited {s t : State} {path : List State} (h : Chain ctx s path t) {n : Nat}
    (ha : s.Accepts ctx n) : t ∈ s.visited ctx n := by
  obtain ⟨_, _, hv, _⟩ := h.visited ha
  simp [hv]

/-- A run ends as it does from any state on its way. -/
theorem run_of_mem_visited {s t : State} {n : Nat} (h : t ∈ s.visited ctx n) :
    ∃ m, t.run ctx m = s.run ctx n := by
  induction n generalizing s with
  | zero => simp [State.visited] at h
  | succ n ih =>
    simp only [State.visited] at h
    split at h
    next =>
      obtain rfl := List.mem_singleton.mp h
      exact ⟨n + 1, rfl⟩
    next u hs =>
      rcases List.mem_cons.mp h with rfl | h
      · exact ⟨n + 1, rfl⟩
      · obtain ⟨m, hm⟩ := ih h
        exact ⟨m, by simpa [run, hs] using hm⟩

theorem Accepts.of_mem_visited {s t : State} {n : Nat} (ha : s.Accepts ctx n)
    (h : t ∈ s.visited ctx n) : ∃ m, t.Accepts ctx m := by
  obtain ⟨stack, hrun, htop⟩ := ha
  obtain ⟨m, hm⟩ := run_of_mem_visited h
  exact ⟨m, stack, hm.trans hrun, htop⟩

end State

theorem Script.length_le_weight (s : Script) : s.length ≤ s.weight := by
  induction s with
  | nil => exact Nat.le_refl 0
  | cons c s ih =>
    have hc : 1 ≤ c.weight := by
      cases c with
      | op code => exact Nat.le_refl 1
      | data bs => simp only [Command.weight]; omega
    rw [List.length_cons, weight]
    omega

namespace Context

theorem length_lt_budget (ctx : Context) (s : Script) : s.length < ctx.budget s := by
  have := s.length_le_weight
  unfold budget
  omega

/-- A run that takes no more steps than its script has commands stays within the budget. -/
theorem execute_of_run {ctx : Context} {s : Script} {n : Nat} {ending : Ending}
    (h : (State.ofScript s).run ctx n = some ending) (hn : n ≤ s.length + 1) :
    ctx.execute s = some ending :=
  State.run_of_le h (Nat.le_trans hn (ctx.length_lt_budget s))

/-- The states in which the steps of a script's run start. -/
def visited (ctx : Context) (script : Script) : List State :=
  (State.ofScript script).visited ctx (ctx.budget script)

theorem ofScript_mem_visited (ctx : Context) (script : Script) :
    State.ofScript script ∈ ctx.visited script := by
  obtain ⟨n, hn⟩ : ∃ n, ctx.budget script = n + 1 := by
    refine ⟨ctx.budget script - 1, ?_⟩
    unfold budget
    omega
  unfold visited
  rw [hn]
  cases hs : (State.ofScript script).step ctx <;> simp [State.visited, hs]

theorem evaluate_eq_ok_true_iff {ctx : Context} {script : Script} :
    ctx.evaluate script = .ok true ↔ (State.ofScript script).Accepts ctx (ctx.budget script) := by
  simp only [evaluate, execute, State.Accepts]
  cases hrun : (State.ofScript script).run ctx (ctx.budget script) with
  | none => simp
  | some ending => cases ending <;> simp [Ending.verdict, Ending.succeeds]

/-- What a run accepts within the weight of its script is accepted. -/
theorem evaluate_of_accepts {ctx : Context} {script : Script} {n : Nat}
    (ha : (State.ofScript script).Accepts ctx n) (hn : n ≤ script.weight + 1) :
    ctx.evaluate script = .ok true := by
  refine evaluate_eq_ok_true_iff.mpr (ha.mono ?_)
  unfold budget
  omega

end Context

end BitcoinSpend

import BitcoinSpend.Proofs.Machine.Residue
import BitcoinSpend.Proofs.Machine.Step

namespace BitcoinSpend

/-- Where a walk stands: the conditions of the open conditionals, the innermost first, and the two
stacks. -/
structure Walk where
  conditions : List Bool
  stack : Stack
  alt : Stack

namespace Walk

def isActive (w : Walk) : Bool :=
  w.conditions.all id

/-- Opens a conditional. Where commands are passed over it takes no condition from the stack. -/
def openConditional (negated : Bool) (w : Walk) : Option Walk :=
  if w.isActive then
    match w.stack with
    | [] => none
    | top :: stack => some ⟨(Number.isTrue top != negated) :: w.conditions, stack, w.alt⟩
  else some { w with conditions := false :: w.conditions }

def flipCondition (w : Walk) : Option Walk :=
  match w.conditions with
  | [] => none
  | condition :: outer => some { w with conditions := (!condition) :: outer }

def closeConditional (w : Walk) : Option Walk :=
  match w.conditions with
  | [] => none
  | _ :: outer => some { w with conditions := outer }

/-- Runs a command that has no part in a conditional. -/
def runPlain (ctx : Context) (c : Command) (w : Walk) : Option Walk :=
  match c with
  | .data bs => some { w with stack := bs :: w.stack }
  | .op code =>
    match (⟨[], w.stack, w.alt⟩ : State).runInstruction ctx code.instruction with
    | .ok s => some { w with stack := s.stack, alt := s.alt }
    | .error _ => none

def runCommand (ctx : Context) (c : Command) (w : Walk) : Option Walk :=
  if c = .op .ifTrue then w.openConditional false
  else if c = .op .ifFalse then w.openConditional true
  else if c = .op .orElse then w.flipCondition
  else if c = .op .endIf then w.closeConditional
  else if w.isActive then w.runPlain ctx c
  else some w

def checkSize (w : Walk) : Option Walk :=
  if w.stack.length + w.alt.length > maxStackSize then none else some w

def step (ctx : Context) (c : Command) (w : Walk) : Option Walk :=
  (w.runCommand ctx c).bind checkSize

/-- The stack on which a walk ends, unless it fails or leaves a conditional open. -/
def run (ctx : Context) : Script → Walk → Option Stack
  | [], w => if w.conditions.isEmpty then some w.stack else none
  | c :: cs, w => (w.step ctx c).bind (run ctx cs)

end Walk

/-- Walks through a script from empty stacks. -/
def Context.walk (ctx : Context) (s : Script) : Option Stack :=
  Walk.run ctx s ⟨[], [], []⟩

/-- A push of the length of a hash, which could be taken for a program. -/
def Command.pushesHash : Command → Bool
  | .op _ => false
  | .data bs => bs.length = 20 || bs.length = 32

/-- A script without pushes of the length of a hash. -/
def Script.HashFree (s : Script) : Prop :=
  ∀ c ∈ s, c.pushesHash = false

instance (s : Script) : Decidable s.HashFree :=
  inferInstanceAs (Decidable (∀ c ∈ s, c.pushesHash = false))

theorem Script.HashFree.sublist {s t : Script} (h : t.HashFree) (hst : s.Sublist t) : s.HashFree :=
  fun c hc => h c (hst.subset hc)

theorem Script.HashFree.scriptHash?_eq_none {s : Script} (h : s.HashFree) :
    s.scriptHash? = none := by
  unfold scriptHash?
  split
  next a bs b =>
    split
    next =>
      have hbs := h (.data bs) (by simp)
      have hlen : bs.length ≠ 20 := by
        intro heq
        simp [Command.pushesHash, heq] at hbs
      simp [FixedBytes.ofBytes?, hlen]
    next => rfl
  next => rfl

theorem Opcode.instruction_eq_conditional {code : Opcode} {negated : Bool}
    (h : code.instruction = .conditional negated) :
    code = if negated then .ifFalse else .ifTrue := by
  obtain ⟨byte⟩ := code
  unfold Opcode.instruction at h
  split at h
  case h_4 hbyte =>
    cases h
    exact congrArg Opcode.mk (UInt8.toNat_inj.mp hbyte)
  case h_5 hbyte =>
    cases h
    exact congrArg Opcode.mk (UInt8.toNat_inj.mp hbyte)
  -- The numbered opcodes are left, which push a constant, do nothing or are invalid.
  all_goals try cases h
  split at h
  · cases h
  · split at h <;> cases h

theorem Command.IsPlain.instruction_ne {code : Opcode} (h : (Command.op code).IsPlain)
    (negated : Bool) : code.instruction ≠ .conditional negated := by
  intro hi
  have hcode := Opcode.instruction_eq_conditional hi
  have hopens := h.opens
  subst hcode
  revert hopens
  cases negated <;> decide

namespace State

variable {ctx : Context}

theorem runInstruction_queue {i : Instruction} (hi : ∀ negated, i ≠ .conditional negated)
    (q : Script) (st alt : Stack) :
    (⟨q, st, alt⟩ : State).runInstruction ctx i =
      ((⟨[], st, alt⟩ : State).runInstruction ctx i).map fun t => { t with queue := q } := by
  cases i with
  | conditional negated => exact absurd rfl (hi negated)
  | nop => rfl
  | invalid reason => rfl
  | toAlt => cases st <;> rfl
  | fromAlt => cases alt <;> rfl
  | _ =>
    simp only [runInstruction, onStack]
    split <;> rfl

theorem runInstruction_ne_malformed {s : State} {i : Instruction} {cause : ScriptError} :
    s.runInstruction ctx i ≠ .error (.malformed cause) := by
  cases i with
  | conditional negated =>
    simp only [runInstruction, runConditional, fail]
    repeat' split
    all_goals simp
  | toAlt =>
    simp only [runInstruction, moveToAlt, fail]
    split <;> simp
  | fromAlt =>
    simp only [runInstruction, moveFromAlt, fail]
    split <;> simp
  | nop => simp [runInstruction]
  | invalid reason => simp [runInstruction, fail]
  | _ =>
    simp only [runInstruction, onStack]
    split <;> simp

end State

/-- An ending without failure on a stack, or a failure. -/
inductive Ending.Is : Ending → Option Stack → Prop
  | completed (stack : Stack) : Is (.completed stack) (some stack)
  | failed (reason : Failure) (stack : Stack) : Is (.failed reason stack) none

/-- A run from a state ends so, given a step for each command of the queue and one more. -/
def State.EndsAs (ctx : Context) (s : State) (answer : Option Stack) : Prop :=
  ∀ n, s.queue.length < n → ∃ ending, s.run ctx n = some ending ∧ ending.Is answer

namespace State

variable {ctx : Context} {answer : Option Stack}

theorem endsAs_nil (st alt : Stack) : (⟨[], st, alt⟩ : State).EndsAs ctx (some st) := by
  intro n hn
  obtain ⟨m, rfl⟩ : ∃ m, n = m + 1 := ⟨n - 1, by omega⟩
  exact ⟨_, rfl, .completed st⟩

theorem endsAs_of_failed {s : State} (reason : Failure) (stack : Stack)
    (hs : s.step ctx = .error (.failed reason stack)) : s.EndsAs ctx none := by
  intro n hn
  obtain ⟨m, rfl⟩ : ∃ m, n = m + 1 := ⟨n - 1, by omega⟩
  exact ⟨_, by rw [run, hs], .failed reason stack⟩

theorem EndsAs.of_step {s t : State} (hs : s.step ctx = .ok t)
    (hlen : t.queue.length < s.queue.length) (ht : t.EndsAs ctx answer) : s.EndsAs ctx answer := by
  intro n hn
  obtain ⟨m, rfl⟩ : ∃ m, n = m + 1 := ⟨n - 1, by omega⟩
  obtain ⟨ending, hrun, hending⟩ := ht m (by omega)
  exact ⟨ending, by rw [run, hs]; exact hrun, hending⟩

end State

namespace Walk

variable {ctx : Context} {w : Walk} {c : Command} {cs q : Script}

/-- A command that has no part in a conditional does to the stacks of a queue what it does to those
of a walk. -/
inductive Follows (q : Script) : Except Ending State → Option Walk → Prop
  | goes (w : Walk) : Follows q (.ok ⟨q, w.stack, w.alt⟩) (some w)
  | fails (reason : Failure) (stack : Stack) : Follows q (.error (.failed reason stack)) none

theorem Follows.checkSize {r : Except Ending State} {next : Option Walk} (h : Follows q r next) :
    Follows q (r.bind State.checkSize) (next.bind Walk.checkSize) := by
  cases h with
  | fails reason stack => exact .fails reason stack
  | goes w =>
    show Follows q (State.checkSize ⟨q, w.stack, w.alt⟩) w.checkSize
    unfold State.checkSize Walk.checkSize
    by_cases hbig : w.stack.length + w.alt.length > maxStackSize
    · rw [if_pos hbig, if_pos hbig]
      exact .fails _ _
    · rw [if_neg hbig, if_neg hbig]
      exact .goes w

theorem runPlain_follows (ctx : Context) (hc : c.IsPlain) (hfree : Script.HashFree (c :: q))
    (w : Walk) :
    Follows q ((⟨q, w.stack, w.alt⟩ : State).runCommand ctx c) (w.runPlain ctx c) := by
  cases c with
  | data bs =>
    have hbs : Command.pushesHash (.data bs) = false := hfree _ (by simp)
    have hq : q.scriptHash? = none :=
      (hfree.sublist (List.sublist_cons_self _ q)).scriptHash?_eq_none
    have hrun : (⟨q, w.stack, w.alt⟩ : State).runCommand ctx (.data bs) =
        .ok ⟨q, bs :: w.stack, w.alt⟩ := by
      simp only [State.runCommand, State.pushData, hq]
      refine State.expandProgram_of_length fun program hst => ?_
      obtain ⟨rfl, _⟩ := List.cons.inj hst
      simpa [Command.pushesHash] using hbs
    rw [hrun]
    exact .goes { w with stack := bs :: w.stack }
  | op code =>
    simp only [State.runCommand, runPlain]
    rw [State.runInstruction_queue hc.instruction_ne]
    cases hi : (⟨[], w.stack, w.alt⟩ : State).runInstruction ctx code.instruction with
    | ok t => exact .goes { w with stack := t.stack, alt := t.alt }
    | error ending =>
      cases ending with
      | completed stack => exact absurd hi State.runInstruction_ne_completed
      | malformed cause => exact absurd hi State.runInstruction_ne_malformed
      | failed reason stack => exact .fails reason stack

theorem conditions_of_runPlain {w' : Walk} (h : w.runPlain ctx c = some w') :
    w'.conditions = w.conditions := by
  unfold runPlain at h
  split at h
  next => cases Option.some.inj h; rfl
  next =>
    split at h
    next => cases Option.some.inj h; rfl
    next => simp at h

theorem checkSize_eq_some {w' : Walk} (h : w.checkSize = some w') :
    w' = w ∧ w.stack.length + w.alt.length ≤ maxStackSize := by
  unfold checkSize at h
  split at h
  next => simp at h
  next hsmall =>
    cases Option.some.inj h
    exact ⟨rfl, by omega⟩

theorem checkSize_of_le (h : w.stack.length + w.alt.length ≤ maxStackSize) :
    w.checkSize = some w := by
  unfold checkSize
  rw [if_neg (by omega)]

theorem runCommand_orElse : w.runCommand ctx (.op .orElse) = w.flipCondition := by
  unfold runCommand
  rw [if_neg (by decide), if_neg (by decide), if_pos rfl]

theorem runCommand_endIf : w.runCommand ctx (.op .endIf) = w.closeConditional := by
  unfold runCommand
  rw [if_neg (by decide), if_neg (by decide), if_neg (by decide), if_pos rfl]

theorem runCommand_plain (ctx : Context) (w : Walk) (hc : c.IsPlain) :
    w.runCommand ctx c = if w.isActive then w.runPlain ctx c else some w := by
  have hopen : c ≠ .op .ifTrue ∧ c ≠ .op .ifFalse := by
    simpa [Command.opensConditional] using hc.opens
  unfold runCommand
  rw [if_neg hopen.1, if_neg hopen.2, if_neg hc.ne_orElse, if_neg hc.ne_endIf]

theorem runCommand_open (ctx : Context) (w : Walk) (hc : c.opensConditional = true) :
    ∃ code negated, c = .op code ∧ code.instruction = .conditional negated ∧
      w.runCommand ctx c = w.openConditional negated := by
  have hcases : c = .op .ifTrue ∨ c = .op .ifFalse := by
    simpa [Command.opensConditional] using hc
  rcases hcases with rfl | rfl
  · exact ⟨_, false, rfl, rfl, by rw [runCommand, if_pos rfl]⟩
  · refine ⟨_, true, rfl, rfl, ?_⟩
    rw [runCommand, if_neg (by decide), if_pos rfl]

end Walk

end BitcoinSpend

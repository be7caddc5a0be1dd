import BitcoinSpend.Machine.Run
import BitcoinSpend.Machine.Trace
import BitcoinSpend.Proofs.Machine.Effects
import BitcoinSpend.Proofs.Machine.Residue
import BitcoinSpend.Proofs.Machine.Step
import BitcoinSpend.Proofs.Script.RoundTrip

namespace BitcoinSpend

open Failure (NotResult)

namespace Opcode

variable {code : Opcode}

/-- Copying three elements is what adds most. -/
theorem copies_le {i : StackInstruction} (h : code.instruction = .stack i) : i.copies ≤ 3 := by
  unfold Opcode.instruction at h
  split at h
  all_goals try cases h
  all_goals try decide
  -- The numbered opcodes are left, which push a constant, do nothing or are invalid.
  split at h
  · cases h
  · split at h <;> cases h

/-- The constants of opcodes are small. -/
theorem inWord_of_constant {n : Int} (h : code.instruction = .constant n) : Number.InWord n := by
  have hword : 256 ^ Number.wordSize = 18446744073709551616 := by decide
  unfold Number.InWord
  rw [hword]
  unfold Opcode.instruction at h
  split at h
  all_goals try cases h
  all_goals try decide
  split at h
  next hrange =>
    cases h
    omega
  next => split at h <;> cases h

theorem notResult_of_invalid {reason : Failure} (h : code.instruction = .invalid reason) :
    reason.NotResult := by
  intro cause
  unfold Opcode.instruction at h
  split at h
  all_goals try cases h
  all_goals try simp
  split at h
  · cases h
  · split at h <;> cases h
    simp

end Opcode

namespace State

/-- How many elements both stacks hold. -/
def size (s : State) : Nat :=
  s.stack.length + s.alt.length

/-- Both stacks hold at most `n` elements, and a property holds of them and of those that are left
to be pushed. -/
structure Bounded (P : Bytes → Prop) (n : Nat) (s : State) : Prop where
  size_le : s.size ≤ n
  stack : ∀ x ∈ s.stack, P x
  alt : ∀ x ∈ s.alt, P x
  queue : ∀ x, .data x ∈ s.queue → P x

theorem Bounded.within {P : Bytes → Prop} {s : State} (h : s.Bounded P maxStackSize) :
    s.stack.Within P :=
  ⟨Nat.le_trans (Nat.le_add_right _ _) h.size_le, h.stack⟩

theorem bounded_ofScript {P : Bytes → Prop} {script : Script} (h : ∀ x, .data x ∈ script → P x) :
    (ofScript script).Bounded P maxStackSize :=
  ⟨Nat.zero_le _, by simp [ofScript], by simp [ofScript], h⟩

end State

/-- The stack that is left is within bounds, but for a failure of the check of the size, and the
result of arithmetic was not too large. -/
inductive Ending.Bounded (P : Bytes → Prop) : Ending → Prop
  | completed {stack : Stack} : stack.Within P → Bounded P (.completed stack)
  | failed {reason : Failure} {stack : Stack} : stack.Within P → reason.NotResult →
    Bounded P (.failed reason stack)
  | overfull {stack : Stack} : stack.length ≤ maxStackSize + 3 → (∀ x ∈ stack, P x) →
    Bounded P (.failed .stackSize stack)
  | malformed {cause : ScriptError} : Bounded P (.malformed cause)

namespace State

/-- What a command or a step may come to. -/
inductive Outcome (P : Bytes → Prop) (n : Nat) : Except Ending State → Prop
  | ok {t : State} : t.Bounded P n → Outcome P n (.ok t)
  | error {ending : Ending} : ending.Bounded P → Outcome P n (.error ending)

variable {ctx : Context} {P : Bytes → Prop} {s t : State}

theorem outcome_onStack {act : StackM Failure Unit} {n : Int} (h : Effect P n Any NotResult act)
    (hn : n ≤ 3) (hs : s.Bounded P maxStackSize) :
    Outcome P (maxStackSize + 3) (s.onStack act) := by
  have hsize := hs.size_le
  have hact := h s.stack hs.within
  unfold onStack
  cases hr : act s.stack with
  | ok u stack =>
    rw [hr] at hact
    obtain ⟨hlen, hall, _⟩ := hact
    refine .ok ⟨?_, hall, hs.alt, hs.queue⟩
    simp only [size] at hsize ⊢
    omega
  | error reason stack =>
    rw [hr] at hact
    obtain ⟨hlen, hall, hreason⟩ := hact
    exact .error (.failed ⟨Nat.le_trans hlen hs.within.length_le, hall⟩ hreason)

theorem outcome_runConditional (negated : Bool) (hs : s.Bounded P maxStackSize) :
    Outcome P (maxStackSize + 3) (s.runConditional negated) := by
  have hwithin := hs.within
  obtain ⟨hsize, hstack, halt, hqueue⟩ := hs
  unfold runConditional
  split
  next => exact .error (.failed hwithin nofun)
  next top stack hst =>
    rw [hst, List.forall_mem_cons] at hstack
    simp only [size, hst, List.length_cons] at hsize
    split
    next => exact .error (.failed ⟨by omega, hstack.2⟩ nofun)
    next c hc =>
      have hsub := Conditional.branch_append_rest_sublist (Number.isTrue top != negated) hc
      refine .ok ⟨?_, hstack.2, halt, fun x hx => hqueue x (hsub.subset hx)⟩
      simp only [size]
      omega

theorem outcome_moveToAlt (hs : s.Bounded P maxStackSize) :
    Outcome P (maxStackSize + 3) s.moveToAlt := by
  have hwithin := hs.within
  obtain ⟨hsize, hstack, halt, hqueue⟩ := hs
  unfold moveToAlt
  split
  next => exact .error (.failed hwithin nofun)
  next x stack hst =>
    rw [hst, List.forall_mem_cons] at hstack
    simp only [size, hst, List.length_cons] at hsize
    refine .ok ⟨?_, hstack.2, List.forall_mem_cons.mpr ⟨hstack.1, halt⟩, hqueue⟩
    simp only [size, List.length_cons]
    omega

theorem outcome_moveFromAlt (hs : s.Bounded P maxStackSize) :
    Outcome P (maxStackSize + 3) s.moveFromAlt := by
  have hwithin := hs.within
  obtain ⟨hsize, hstack, halt, hqueue⟩ := hs
  unfold moveFromAlt
  split
  next => exact .error (.failed hwithin nofun)
  next x alt hst =>
    rw [hst, List.forall_mem_cons] at halt
    simp only [size, hst, List.length_cons] at hsize
    refine .ok ⟨?_, List.forall_mem_cons.mpr ⟨halt.1, hstack⟩, halt.2, hqueue⟩
    simp only [size, List.length_cons]
    omega

/-- A program that is refused shows no elements. -/
theorem bounded_of_expandProgram {ending : Ending} (h : s.expandProgram ctx = .error ending) :
    ending.Bounded P := by
  have hnone : Stack.Within P [] := ⟨Nat.zero_le _, by simp⟩
  have hempty : NotResult .witnessEmpty := nofun
  have hmismatch : NotResult .witnessProgramMismatch := nofun
  unfold expandProgram at h
  repeat' split at h
  all_goals cases h
  · exact .failed hnone hempty
  · exact .failed hnone hmismatch
  · exact .malformed

variable (hP : ElementBound P) (hw : ∀ item ∈ ctx.witness, P item)

include hP hw

theorem of_mem_expands {program : Bytes} {added : Script} (h : Expands ctx program added)
    {x : Bytes} (hx : .data x ∈ added) : P x := by
  cases h with
  | keyHash k =>
    simp only [Script.payToKeyHash, List.mem_append, List.mem_map, Command.data.injEq,
      exists_eq_right, List.mem_cons, reduceCtorEq, List.not_mem_nil, or_false, false_or] at hx
    rcases hx with hx | rfl
    · exact hw x hx
    · exact hP.of_fixed k (by decide)
  | scriptHash hlast hscript =>
    simp only [List.mem_append, List.mem_map, Command.data.injEq, exists_eq_right] at hx
    rcases hx with hx | hx
    · exact hw x ((List.dropLast_sublist _).subset hx)
    · exact hP.of_length_le x (Script.length_le_of_ofBody hscript hx)

/-- A program that is replaced takes its two elements off. -/
theorem outcome_expandProgram {n : Nat} (hs : s.Bounded P n) :
    Outcome P n (s.expandProgram ctx) := by
  cases h : s.expandProgram ctx with
  | error ending => exact .error (bounded_of_expandProgram h)
  | ok t =>
    rcases expandProgram_ok h with ⟨_, added, hst, hadd, rfl⟩ | ⟨rfl, _⟩
    · have hsize := hs.size_le
      simp only [size, hst, List.length_cons] at hsize
      refine .ok ⟨?_, by simp, hs.alt, fun x hx => ?_⟩
      · simp only [size, List.length_nil]
        omega
      · rcases List.mem_append.mp hx with hx | hx
        · exact hs.queue x hx
        · exact of_mem_expands hP hw hadd hx
    · exact .ok hs

theorem outcome_pushData {bs : Bytes} (hs : s.Bounded P maxStackSize) (hbs : P bs) :
    Outcome P (maxStackSize + 3) (s.pushData ctx bs) := by
  have hsize := hs.size_le
  unfold pushData
  split
  next =>
    refine outcome_expandProgram hP hw
      ⟨?_, List.forall_mem_cons.mpr ⟨hbs, hs.stack⟩, hs.alt, hs.queue⟩
    simp only [size, List.length_cons] at hsize ⊢
    omega
  next =>
    split
    next => exact .error (.failed hs.within nofun)
    next =>
      split
      next => exact .error .malformed
      next script hscript =>
        exact outcome_expandProgram hP hw ⟨Nat.le_add_right_of_le hsize, hs.stack, hs.alt,
          fun x hx => hP.of_length_le x (Script.length_le_of_ofBody hscript hx)⟩

omit hw

theorem outcome_runInstruction {code : Opcode} (hs : s.Bounded P maxStackSize) :
    Outcome P (maxStackSize + 3) (s.runInstruction ctx code.instruction) := by
  cases hi : code.instruction with
  | constant n =>
    have hn := Opcode.inWord_of_constant hi
    exact outcome_onStack (Stack.effect_pushNumber hP hn (Int.le_refl 1)) (by decide) hs
  | nop => exact .ok ⟨Nat.le_add_right_of_le hs.size_le, hs.stack, hs.alt, hs.queue⟩
  | conditional negated => exact outcome_runConditional negated hs
  | toAlt => exact outcome_moveToAlt hs
  | fromAlt => exact outcome_moveFromAlt hs
  | stack i =>
    have hcopies := Opcode.copies_le hi
    exact outcome_onStack (i.effect_run hP) (by omega) hs
  | checkSig =>
    exact outcome_onStack (effect_pushAnswer hP ctx.effect_checkSig (by decide)) (by decide) hs
  | checkSigVerify =>
    exact outcome_onStack (effect_demandAnswer _ ctx.effect_checkSig (by decide)) (by decide) hs
  | checkMultiSig =>
    exact outcome_onStack (effect_pushAnswer hP ctx.effect_checkMultiSig (by decide)) (by decide) hs
  | checkMultiSigVerify =>
    exact outcome_onStack (effect_demandAnswer _ ctx.effect_checkMultiSig (by decide)) (by decide)
      hs
  | checkLockTime =>
    exact outcome_onStack (effect_underLockTime LockTime.effect_checkReached) (by decide) hs
  | checkSequence =>
    exact outcome_onStack (effect_underLockTime LockTime.effect_checkAged) (by decide) hs
  | invalid reason => exact .error (.failed hs.within (Opcode.notResult_of_invalid hi))

include hw

/-- One step takes a state that is within bounds to another one, or to an ending. -/
theorem outcome_step (hs : s.Bounded P maxStackSize) : Outcome P maxStackSize (s.step ctx) := by
  obtain ⟨queue, st, alt⟩ := s
  cases queue with
  | nil => exact .error (.completed hs.within)
  | cons c q =>
    have hrest : Bounded P maxStackSize ⟨q, st, alt⟩ :=
      ⟨hs.size_le, hs.stack, hs.alt, fun x hx => hs.queue x (List.mem_cons_of_mem c hx)⟩
    have hrun : Outcome P (maxStackSize + 3) (runCommand ctx c ⟨q, st, alt⟩) := by
      cases c with
      | data bs => exact outcome_pushData hP hw hrest (hs.queue bs List.mem_cons_self)
      | op code => exact outcome_runInstruction hP hrest
    simp only [step]
    generalize runCommand ctx c ⟨q, st, alt⟩ = r at hrun
    cases hrun with
    | error h => exact .error h
    | @ok t ht =>
      simp only [Except.bind, checkSize, fail]
      split
      next => exact .error (.overfull (Nat.le_trans (Nat.le_add_right _ _) ht.size_le) ht.stack)
      next hle => exact .ok ⟨Nat.not_lt.mp hle, ht.stack, ht.alt, ht.queue⟩

/-- From a state within bounds every step starts within them. -/
theorem bounded_of_mem_visited {n : Nat} (hs : s.Bounded P maxStackSize)
    (h : t ∈ s.visited ctx n) : t.Bounded P maxStackSize := by
  induction n generalizing s with
  | zero => simp [visited] at h
  | succ n ih =>
    have hstep := outcome_step hP hw hs
    simp only [visited] at h
    split at h
    next =>
      obtain rfl := List.mem_singleton.mp h
      exact hs
    next u hu =>
      rcases List.mem_cons.mp h with rfl | h
      · exact hs
      · rw [hu] at hstep
        cases hstep with
        | ok hbounded => exact ih hbounded h

theorem bounded_of_run {n : Nat} {ending : Ending} (hs : s.Bounded P maxStackSize)
    (h : s.run ctx n = some ending) : ending.Bounded P := by
  induction n generalizing s with
  | zero => cases h
  | succ n ih =>
    have hstep := outcome_step hP hw hs
    rw [run] at h
    split at h
    next e he =>
      cases h
      rw [he] at hstep
      cases hstep with
      | error hbounded => exact hbounded
    next u hu =>
      rw [hu] at hstep
      cases hstep with
      | ok hbounded => exact ih hbounded h

omit hP hw

theorem bounded_of_run_ofScript {script : Script} {n : Nat} {ending : Ending}
    (h : (ofScript script).run ctx n = some ending) : ending.Bounded Any :=
  bounded_of_run .any (fun _ _ => trivial) (bounded_ofScript fun _ _ => trivial) h

end State

end BitcoinSpend

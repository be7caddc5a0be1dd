import BitcoinSpend.Machine.Context
import BitcoinSpend.Machine.StackInstruction
import Mathlib.Tactic.Common

namespace BitcoinSpend

section

variable {ε δ σ α β : Type} {s t : σ}

@[simp] theorem bind_eq_ok_iff {x : EStateM ε σ α} {f : α → EStateM ε σ β} {b : β} :
    (x >>= f) s = .ok b t ↔ ∃ a u, x s = .ok a u ∧ f a u = .ok b t := by
  simp only [bind, EStateM.bind]
  cases x s <;> simp

@[simp] theorem pure_eq_ok_iff {a b : α} :
    (pure a : EStateM ε σ α) s = .ok b t ↔ a = b ∧ s = t := by
  simp [pure, EStateM.pure]

@[simp] theorem map_eq_ok_iff {x : EStateM ε σ α} {f : α → β} {b : β} :
    (f <$> x) s = .ok b t ↔ ∃ a, x s = .ok a t ∧ f a = b := by
  simp only [Functor.map, EStateM.map]
  cases x s <;> simp [and_comm]

@[simp] theorem throw_ne_ok {e : ε} {a : α} : (throw e : EStateM ε σ α) s ≠ .ok a t := by
  show EStateM.Result.error e s ≠ .ok a t
  simp

@[simp] theorem throw_or_pure_eq_ok_iff {c : Prop} [Decidable c] {e : ε} {u : Unit} :
    (if c then throw e else pure () : EStateM ε σ Unit) s = .ok u t ↔ ¬c ∧ s = t := by
  split
  next h => simp [h]
  next h => simp [h]

@[simp] theorem ofExcept_eq_ok_iff {r : Except ε α} {a : α} :
    (ofExcept r : EStateM ε σ α) s = .ok a t ↔ r = .ok a ∧ s = t := by
  cases r <;> simp [ofExcept]

theorem exists_ok_of_run {x : EStateM ε σ α} {a : α} (h : x.run' s = some a) :
    ∃ t, x s = .ok a t := by
  unfold EStateM.run' EStateM.run at h
  split at h
  next b t hx =>
    cases Option.some.inj h
    exact ⟨t, hx⟩
  next => simp at h

@[simp] theorem mapError_eq_ok_iff {r : Except ε α} {f : ε → δ} {a : α} :
    r.mapError f = .ok a ↔ r = .ok a := by
  cases r <;> simp [Except.mapError]

theorem Except.bind_eq_ok_iff {r : Except ε α} {f : α → Except ε β} {b : β} :
    (r >>= f) = .ok b ↔ ∃ a, r = .ok a ∧ f a = .ok b := by
  cases r <;> simp [bind, Except.bind]

theorem Except.bind_eq_error_iff {r : Except ε α} {f : α → Except ε β} {e : ε} :
    (r >>= f) = .error e ↔ r = .error e ∨ ∃ a, r = .ok a ∧ f a = .error e := by
  cases r <;> simp [bind, Except.bind]

theorem Except.pure_eq_ok_iff {a b : α} : (pure a : Except ε α) = .ok b ↔ a = b := by
  simp [pure, Except.pure]

end

section

variable {ε : Type} {s t : Stack}

@[simp] theorem lift_eq_ok_iff {α : Type} {act : StackM StackError α} {a : α} :
    (liftM act : StackM Failure α) s = .ok a t ↔ act s = .ok a t := by
  simp only [liftM, monadLift, MonadLift.monadLift, EStateM.adaptExcept]
  cases act s <;> simp

namespace Number

@[simp] theorem encode_zero : encode 0 = [] := by
  simp [encode, magnitude, withSign]

@[simp] theorem encode_one : encode 1 = [1] := by
  simp [encode, magnitude, withSign]

end Number

namespace Stack

@[simp] theorem rearrange_eq_ok_iff {n : Nat} {f : Stack → Stack} {u : Unit} :
    rearrange n f s = .ok u t ↔ n ≤ s.length ∧ f s = t := by
  unfold rearrange
  split
  next h => simp; omega
  next h => simp; omega

theorem top_eq_ok_iff {i : Nat} {x : Bytes} : top i s = .ok x t ↔ s[i]? = some x ∧ s = t := by
  unfold top
  cases s[i]? <;> simp

@[simp] theorem pop_eq_ok_iff {x : Bytes} : pop s = .ok x t ↔ s = x :: t := by
  cases s <;> simp [pop]

@[simp] theorem push_eq_ok_iff {x : Bytes} {u : Unit} :
    (push x : StackM ε Unit) s = .ok u t ↔ x :: s = t := by
  simp [push]

@[simp] theorem popBool_eq_ok_iff {b : Bool} :
    popBool s = .ok b t ↔ ∃ x, s = x :: t ∧ Number.isTrue x = b := by
  simp [popBool]

/-- Truth values on the stack: the one byte string `1`, or the empty string. -/
@[simp] theorem pushBool_eq_ok_iff {b : Bool} {u : Unit} :
    (pushBool b : StackM ε Unit) s = .ok u t ↔ (if b then [1] else []) :: s = t := by
  cases b <;> simp [pushBool, pushNumber]

end Stack

namespace StackInstruction

@[simp] theorem run_dup_one_eq_ok_iff {u : Unit} :
    (dup 1).run s = .ok u t ↔ ∃ x rest, s = x :: rest ∧ x :: x :: rest = t := by
  cases s with
  | nil => simp [run, Stack.dup]
  | cons x rest => simp [run, Stack.dup]

@[simp] theorem run_hash_eq_ok_iff {algorithm : HashAlgorithm} {u : Unit} :
    (hash algorithm).run s = .ok u t ↔
      ∃ x rest, s = x :: rest ∧ algorithm.digest x :: rest = t := by
  simp [run]

@[simp] theorem run_equal_eq_ok_iff {u : Unit} :
    equal.run s = .ok u t ↔
      ∃ x y rest, s = x :: y :: rest ∧ (if x = y then [1] else []) :: rest = t := by
  simp [run, compareTop]

@[simp] theorem run_equalVerify_eq_ok_iff {u : Unit} :
    equalVerify.run s = .ok u t ↔ ∃ x, s = x :: x :: t := by
  simp only [run, compareTop, demandTrue, bind_eq_ok_iff, lift_eq_ok_iff, Stack.pop_eq_ok_iff,
    Stack.pushBool_eq_ok_iff, Stack.popBool_eq_ok_iff, throw_or_pure_eq_ok_iff]
  constructor
  · intro hall
    obtain ⟨_, _, ⟨x, _, rfl, y, _, rfl, rfl⟩, b, _, ⟨_, heq, rfl⟩, htrue, rfl⟩ := hall
    obtain ⟨rfl, rfl⟩ := List.cons.inj heq
    by_cases hxy : x = y
    · exact ⟨x, by rw [hxy]⟩
    · simp [hxy, Number.isTrue] at htrue
  · intro hall
    obtain ⟨x, rfl⟩ := hall
    exact ⟨(), _, ⟨x, _, rfl, x, _, rfl, rfl⟩, true, t, ⟨[1], by simp, by decide⟩, by simp⟩

end StackInstruction

namespace Context

@[simp] theorem checkSig_eq_ok_iff {ctx : Context} {b : Bool} :
    ctx.checkSig s = .ok b t ↔ ∃ key sig, s = key :: sig :: t ∧ ctx.accepts sig key = b := by
  simp [checkSig]

end Context

end

end BitcoinSpend

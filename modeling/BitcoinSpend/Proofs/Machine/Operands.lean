import BitcoinSpend.Proofs.Machine.Success
import BitcoinSpend.Proofs.Script.Word

namespace BitcoinSpend

section

variable {ε σ α β : Type} {s t : σ}

theorem bind_of_ok {x : EStateM ε σ α} {f : α → EStateM ε σ β} {a : α} (h : x s = .ok a t) :
    (x >>= f) s = f a t := by
  simp only [bind, EStateM.bind, h]

theorem bind_of_error {x : EStateM ε σ α} {f : α → EStateM ε σ β} {e : ε}
    (h : x s = .error e t) : (x >>= f) s = .error e t := by
  simp only [bind, EStateM.bind, h]

end

namespace Stack

variable {s : Stack}

/-- A number of at most so many bytes is what they stand for. -/
theorem ofNumber_decode {size : Nat} (hsize : size ≤ Number.wordSize) (x : Bytes) :
    (liftM (ofNumber (Number.decode false size x)) : StackM Failure Int) s =
      if size < x.length then .error (.stack (.number .overflow)) s
      else .ok (Number.value x) s := by
  rw [Number.decode_false_eq hsize]
  split <;> rfl

theorem popNumber_nil :
    (liftM popNumber : StackM Failure Int) [] = .error (.stack .invalidOperation) [] :=
  rfl

theorem popNumber_cons (x : Bytes) :
    (liftM popNumber : StackM Failure Int) (x :: s) =
      if 4 < x.length then .error (.stack (.number .overflow)) s else .ok (Number.value x) s :=
  ofNumber_decode (by decide) x

theorem peekNumber_cons {size : Nat} (hsize : size ≤ Number.wordSize) (x : Bytes) :
    (liftM (peekNumber size) : StackM Failure Int) (x :: s) =
      if size < x.length then .error (.stack (.number .overflow)) (x :: s)
      else .ok (Number.value x) (x :: s) :=
  ofNumber_decode hsize x

end Stack

end BitcoinSpend

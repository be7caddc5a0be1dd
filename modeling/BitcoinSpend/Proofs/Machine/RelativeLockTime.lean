import BitcoinSpend.Curve.Ecdsa
import BitcoinSpend.Proofs.Machine.LockTime
import BitcoinSpend.Proofs.Machine.Operands
import Mathlib.Data.Nat.Bitwise

namespace BitcoinSpend

/-- The opcode that demands an age. -/
def Opcode.checkSequence : Opcode := ⟨0xb2⟩

namespace LockTime

variable {own : LockTime}

/-- BIP112: the transaction has relative lock times, by its version without a sign, and the input
has one, of the kind that is demanded and no smaller. -/
def HasAge (own : LockTime) (demand : Nat) : Prop :=
  2 ≤ own.version.toUInt32 ∧ own.sequence.toNat.testBit 31 = false ∧
    demand.testBit 22 = own.sequence.toNat.testBit 22 ∧
    demand &&& 0xffff ≤ own.sequence.toNat &&& 0xffff

instance {demand : Nat} : Decidable (own.HasAge demand) :=
  inferInstanceAs (Decidable (_ ∧ _ ∧ _ ∧ _))

/-- The mask keeps the bit of the kind and, below it, the amount. -/
theorem and_relativeMask (n : Nat) :
    n &&& relativeMask = 2 ^ 22 * (n.testBit 22).toNat + (n &&& 0xffff) := by
  have hamount : n &&& 0xffff < 2 ^ 22 :=
    Nat.lt_of_le_of_lt Nat.and_le_right (by decide)
  have hfields : relativeMask = 2 ^ 22 ||| 0xffff := by decide
  rw [hfields, Nat.and_or_distrib_left, Nat.and_two_pow, Nat.mul_comm,
    Nat.two_pow_add_eq_or_of_lt hamount]

theorem and_relativeMask_lt_iff (n : Nat) :
    n &&& relativeMask < relativeThreshold ↔ n.testBit 22 = false := by
  have hamount : n &&& 0xffff < 2 ^ 22 :=
    Nat.lt_of_le_of_lt Nat.and_le_right (by decide)
  have hthreshold : relativeThreshold = 2 ^ 22 := by decide
  rw [and_relativeMask, hthreshold]
  cases n.testBit 22 with
  | false => simpa using hamount
  | true => simp

/-- Of two numbers of one kind the masks compare the amounts. -/
theorem and_relativeMask_le_iff {m n : Nat} (h : m.testBit 22 = n.testBit 22) :
    m &&& relativeMask ≤ n &&& relativeMask ↔ m &&& 0xffff ≤ n &&& 0xffff := by
  rw [and_relativeMask, and_relativeMask, h]
  omega

/-- A version below zero is large without its sign. -/
theorem two_le_version_iff {v : Int32} : 2 ≤ v ↔ 2 ≤ v.toUInt32 ∧ 0 ≤ v := by
  have htwo : (2 : Int32).toInt = 2 := rfl
  have hzero : (0 : Int32).toInt = 0 := rfl
  have htwo' : (2 : UInt32).toNat = 2 := rfl
  have hword : v.toUInt32.toNat < 2 ^ 32 := v.toUInt32.toNat_lt
  have hsigned : v.toInt = if 2 * v.toUInt32.toNat < 2 ^ 32 then (v.toUInt32.toNat : Int)
      else v.toUInt32.toNat - (2 ^ 32 : Nat) := BitVec.toInt_eq_toNat_cond v.toBitVec
  rw [Int32.le_iff_toInt_le, Int32.le_iff_toInt_le, UInt32.le_iff_toNat_le, htwo, hzero, htwo']
  split at hsigned <;> omega

theorem aged_iff {demand : Nat} : own.aged demand = true ↔ own.HasAge demand ∧ 0 ≤ own.version := by
  simp only [aged, HasAge, disableBit, Bool.and_eq_true, decide_eq_true_eq, beq_iff_eq,
    Bool.not_eq_true', decide_eq_decide, and_relativeMask_lt_iff, two_le_version_iff]
  constructor
  · rintro ⟨⟨⟨⟨hversion, hsigned⟩, henabled⟩, hkind⟩, hamount⟩
    have hkind : demand.testBit 22 = own.sequence.toNat.testBit 22 :=
      Bool.eq_iff_iff.mpr (by simpa using not_congr hkind)
    exact ⟨⟨hversion, henabled, hkind, (and_relativeMask_le_iff hkind).mp hamount⟩, hsigned⟩
  · rintro ⟨⟨hversion, henabled, hkind, hamount⟩, hsigned⟩
    exact ⟨⟨⟨⟨hversion, hsigned⟩, henabled⟩, by rw [hkind]⟩,
      (and_relativeMask_le_iff hkind).mpr hamount⟩

/-- What is demanded, or why nothing is. The stack is left as it was. -/
theorem peekDemand_cons (x : Bytes) (rest : Stack) :
    peekDemand (x :: rest) =
      if 5 < x.length then .error (.stack (.number .overflow)) (x :: rest)
      else if Number.value x < 0 then .error .negativeLockTime (x :: rest)
      else .ok (Number.value x) (x :: rest) := by
  have hpeek : (liftM (Stack.peekNumber Number.lockTimeSize) : StackM Failure Int) (x :: rest) =
      if 5 < x.length then .error (.stack (.number .overflow)) (x :: rest)
      else .ok (Number.value x) (x :: rest) := Stack.peekNumber_cons (by decide) x
  unfold peekDemand
  split
  next hlong =>
    rw [if_pos hlong] at hpeek
    exact bind_of_error hpeek
  next hshort =>
    rw [if_neg hshort] at hpeek
    rw [bind_of_ok hpeek]
    split <;> rfl

theorem checkAged_cons (own : LockTime) (x : Bytes) (rest : Stack) :
    own.checkAged (x :: rest) =
      if 5 < x.length then .error (.stack (.number .overflow)) (x :: rest)
      else if Number.value x < 0 then .error .negativeLockTime (x :: rest)
      else if (Number.value x).toNat.testBit 31 ∨
        own.HasAge (Number.value x).toNat ∧ 0 ≤ own.version then .ok () (x :: rest)
      else .error .unsatisfiedLockTime (x :: rest) := by
  have hpeek := peekDemand_cons x rest
  have hcheck : ∀ off aged : Bool, (do
      if off then return
      if !aged then throw .unsatisfiedLockTime : StackM Failure Unit) (x :: rest) =
      if off = true ∨ aged = true then .ok () (x :: rest)
      else .error .unsatisfiedLockTime (x :: rest) := by
    intro off aged
    cases off <;> cases aged <;> rfl
  unfold checkAged
  split
  next hlong =>
    rw [if_pos hlong] at hpeek
    exact bind_of_error hpeek
  next hshort =>
    rw [if_neg hshort] at hpeek
    split
    next hneg =>
      rw [if_pos hneg] at hpeek
      exact bind_of_error hpeek
    next hdemand =>
      rw [if_neg hdemand] at hpeek
      rw [bind_of_ok hpeek]
      simp only [← aged_iff]
      exact hcheck _ _

end LockTime

/-- What the opcode that demands an age answers to every stack, which it leaves as it was. A demand
that is not switched off is met by what BIP112 asks for, but only if the version is not negative. -/
theorem State.runCommand_checkSequence (ctx : Context) (own : LockTime) (s : State) :
    s.runCommand { ctx with lockTime := some own } (.op .checkSequence) =
      match s.stack with
      | [] => s.fail (.stack .invalidOperation)
      | x :: _ =>
        if 5 < x.length then s.fail (.stack (.number .overflow))
        else if Number.value x < 0 then s.fail .negativeLockTime
        else if (Number.value x).toNat.testBit 31 ∨
          own.HasAge (Number.value x).toNat ∧ 0 ≤ own.version then .ok s
        else s.fail .unsatisfiedLockTime := by
  obtain ⟨queue, stack, alt⟩ := s
  cases stack with
  | nil => rfl
  | cons x rest =>
    have hcheck := own.checkAged_cons x rest
    show onStack ⟨queue, x :: rest, alt⟩ own.checkAged = _
    unfold onStack
    by_cases hlong : 5 < x.length
    · rw [if_pos hlong] at hcheck
      simp only [hcheck, hlong, if_true, fail]
    by_cases hneg : Number.value x < 0
    · rw [if_neg hlong, if_pos hneg] at hcheck
      simp only [hcheck, hlong, hneg, if_true, if_false, fail]
    rw [if_neg hlong, if_neg hneg] at hcheck
    split at hcheck
    next hmet => simp only [hcheck, hlong, hneg, hmet, if_true, if_false]
    next hmet => simp only [hcheck, hlong, hneg, hmet, if_false, fail]

/-- BIP112 grants an age of ten blocks to a version that is negative as a signed number. -/
theorem LockTime.negative_version_refused :
    (⟨-1, 0, 10⟩ : LockTime).HasAge (Number.value [10]).toNat ∧
      (⟨[], [[10]], []⟩ : State).runCommand
          ⟨Secp256k1.scheme, FixedBytes.zero 32, [], some ⟨-1, 0, 10⟩⟩ (.op .checkSequence) =
        .error (.failed .unsatisfiedLockTime [[10]]) := by
  decide +kernel

end BitcoinSpend

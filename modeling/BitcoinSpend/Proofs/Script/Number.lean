import BitcoinSpend.Machine.Instruction
import BitcoinSpend.Proofs.Script.Word

namespace BitcoinSpend

namespace Number

theorem length_magnitude_le {n width : Nat} (h : n < 256 ^ width) :
    (magnitude n).length ≤ width := by
  induction width generalizing n with
  | zero =>
    obtain rfl : n = 0 := Nat.lt_one_iff.mp h
    simp [magnitude]
  | succ width ih =>
    rw [magnitude]
    split
    · exact Nat.zero_le _
    · have hrest : n / 256 < 256 ^ width := by
        rw [Nat.pow_succ] at h
        omega
      exact Nat.succ_le_succ (ih hrest)

theorem length_withSign_le (negative : Bool) (bs : Bytes) :
    (withSign negative bs).length ≤ bs.length + 1 := by
  fun_induction withSign negative bs with
  | case1 => exact Nat.zero_le _
  | case2 => exact Nat.le_add_right _ _
  | case3 => exact Nat.le_refl _
  | case4 b bs _ ih => exact Nat.succ_le_succ ih

theorem length_encode_le {n : Int} {width : Nat} (h : n.natAbs < 256 ^ width) :
    (encode n).length ≤ width + 1 :=
  Nat.le_trans (length_withSign_le _ _) (Nat.succ_le_succ (length_magnitude_le h))

/-- A number that a word of 64 bits holds, with a sign apart. -/
def InWord (n : Int) : Prop :=
  n.natAbs < 256 ^ wordSize

theorem InWord.length_encode_le {n : Int} (h : InWord n) : (encode n).length ≤ wordSize + 1 :=
  Number.length_encode_le h

theorem inWord_ofBool (b : Bool) : InWord (ofBool b) := by
  unfold InWord
  cases b <;> decide

theorem inWord_of_lt {n : Int} (h : n.natAbs < 2 ^ 32) : InWord n :=
  Nat.lt_trans h (by decide)

/-- The value of at most four bytes. -/
def Operand (n : Int) : Prop :=
  n.natAbs < 2 ^ 31

theorem operand_value {x : Bytes} (h : x.length ≤ 4) : Operand (value x) := by
  have hvalue := two_mul_natAbs_value_lt x
  have hwidth : 256 ^ x.length ≤ 256 ^ 4 := Nat.pow_le_pow_right (by decide) h
  unfold Operand
  omega

theorem operand_of_decode {x : Bytes} {n : Int} (h : decode false operandSize x = .ok n) :
    Operand n := by
  rw [decode_false_eq (by decide)] at h
  split at h
  next => cases h
  next hlen =>
    cases h
    exact operand_value (Nat.not_lt.mp hlen)

/-- Words hold twice what four bytes do. -/
theorem checked_eq_ok {n : Int} (h : n.natAbs < 2 ^ 32) : checked n = .ok n := by
  have hmin : Int64.minValue.toInt = -9223372036854775808 := by decide
  have hmax : Int64.maxValue.toInt = 9223372036854775807 := by decide
  unfold checked
  rw [if_pos (by omega)]

theorem exists_checked {n : Int} (h : n.natAbs < 2 ^ 32) : ∃ r, checked n = .ok r ∧ InWord r :=
  ⟨n, checked_eq_ok h, inWord_of_lt h⟩

end Number

open Number

/-- On operands no result is too large. -/
theorem UnaryOp.exists_apply (op : UnaryOp) {a : Int} (ha : Operand a) :
    ∃ r, op.apply a = .ok r ∧ InWord r := by
  unfold Operand at ha
  cases op with
  | isZero | isNonzero => exact ⟨_, rfl, inWord_ofBool _⟩
  | _ => exact exists_checked (by omega)

theorem BinaryOp.exists_apply (op : BinaryOp) {a b : Int} (ha : Operand a) (hb : Operand b) :
    ∃ r, op.apply a b = .ok r ∧ InWord r := by
  unfold Operand at ha hb
  cases op with
  | add | subtract => exact exists_checked (by omega)
  | minimum | maximum => exact ⟨_, rfl, inWord_of_lt (by omega)⟩
  | _ => exact ⟨_, rfl, inWord_ofBool _⟩

end BitcoinSpend

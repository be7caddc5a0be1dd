import BitcoinSpend.Proofs.Bytes.Digits
import BitcoinSpend.Script.Number
import Mathlib.Data.Nat.Bitwise

namespace BitcoinSpend

namespace Bytes

theorem toNatLE_concat (bs : Bytes) (b : UInt8) :
    toNatLE (bs ++ [b]) = toNatLE bs + 256 ^ bs.length * b.toNat := by
  rw [toNatLE_append, toNatLE, toNatLE, Nat.mul_zero, Nat.add_zero]

end Bytes

namespace Number

/-- The integer that a byte string stands for, whatever its length. -/
def value (bs : Bytes) : Int :=
  match bs.getLast? with
  | none => 0
  | some last =>
    if last < 0x80 then Bytes.toNatLE bs
    else -(Bytes.toNatLE (bs.dropLast ++ [last &&& 0x7f]) : Int)

theorem toNat_withoutSign (b : UInt8) : (b &&& 0x7f).toNat = b.toNat % 128 :=
  (UInt8.toNat_and b 0x7f).trans (Nat.and_two_pow_sub_one_eq_mod b.toNat 7)

theorem hasSign_iff {b : UInt8} : (b &&& 0x80 != 0) = true ↔ 128 ≤ b.toNat := by
  have hb := b.toNat_lt
  have hbit : (b &&& 0x80).toNat = (b.toNat.testBit 7).toNat * 128 :=
    (UInt8.toNat_and b 0x80).trans (Nat.and_two_pow b.toNat 7)
  have htest : b.toNat.testBit 7 = decide (128 ≤ b.toNat) := by
    rw [Nat.testBit_eq_decide_div_mod_eq, decide_eq_decide]
    omega
  rw [bne_iff_ne, ne_eq, ← UInt8.toNat_inj, hbit, htest]
  by_cases h : 128 ≤ b.toNat <;> simp [h]

theorem value_concat (bs : Bytes) (last : UInt8) : value (bs ++ [last]) =
    if 128 ≤ last.toNat then
      -((Bytes.toNatLE bs + 256 ^ bs.length * (last.toNat % 128) : Nat) : Int)
    else ((Bytes.toNatLE bs + 256 ^ bs.length * last.toNat : Nat) : Int) := by
  have hlt : last < 0x80 ↔ ¬128 ≤ last.toNat := by
    rw [UInt8.lt_iff_toNat_lt]
    exact Nat.not_le.symm
  simp only [value, List.getLast?_concat, List.dropLast_concat, Bytes.toNatLE_concat,
    toNat_withoutSign, hlt, ite_not]

/-- The sign takes one bit, so that a magnitude is less than half of what its bytes could hold. -/
theorem two_mul_natAbs_value_lt (bs : Bytes) : 2 * (value bs).natAbs < 256 ^ bs.length := by
  rcases List.eq_nil_or_concat bs with rfl | ⟨front, last, rfl⟩
  · decide
  · have hfront := Bytes.toNatLE_lt front
    have hmag : ∀ n < 128, 2 * (Bytes.toNatLE front + 256 ^ front.length * n) <
        256 ^ (front.length + 1) := by
      intro n hn
      have hmul : 256 ^ front.length * (n + 1) ≤ 256 ^ front.length * 128 :=
        Nat.mul_le_mul_left _ hn
      rw [Nat.mul_add] at hmul
      rw [Nat.pow_succ]
      omega
    rw [List.concat_eq_append, value_concat, List.length_append, List.length_singleton]
    split
    next =>
      rw [Int.natAbs_neg, Int.natAbs_natCast]
      exact hmag _ (Nat.mod_lt _ (by decide))
    next hsign =>
      rw [Int.natAbs_natCast]
      exact hmag _ (by omega)

theorem toNat_shifted {b : UInt8} {i : Nat} (hi : i < 8) :
    (b.toUInt64 <<< UInt64.ofNat (8 * i)).toNat = 256 ^ i * b.toNat := by
  have hb := b.toNat_lt
  have hamount : (UInt64.ofNat (8 * i)).toNat % 64 = 8 * i := by
    rw [UInt64.toNat_ofNat']
    omega
  have hbound : 2 ^ (8 * i) * b.toNat < 2 ^ 64 := by
    have hpow : 2 ^ (8 * i) * 2 ^ 8 ≤ 2 ^ 64 := by
      rw [← Nat.pow_add]
      exact Nat.pow_le_pow_right (by decide) (by omega)
    have hmul : 2 ^ (8 * i) * b.toNat < 2 ^ (8 * i) * 2 ^ 8 :=
      Nat.mul_lt_mul_of_pos_left hb (Nat.two_pow_pos _)
    omega
  rw [UInt64.toNat_shiftLeft, hamount, UInt8.toNat_toUInt64, Nat.shiftLeft_eq, Nat.mul_comm,
    Nat.mod_eq_of_lt hbound, Nat.pow_mul]

theorem toNat_signBit {i : Nat} (hi : i < 8) : (signBit (i + 1)).toNat = 2 ^ (8 * i + 7) := by
  have hbit : signBit (i + 1) = (0x80 : UInt8).toUInt64 <<< UInt64.ofNat (8 * i) := rfl
  rw [hbit, toNat_shifted hi, Nat.pow_add, Nat.pow_mul]
  rfl

/-- Bytes that fit above those of a word are added to it. -/
theorem toNat_orBytes {bs : Bytes} {word : UInt64} {i : Nat} (hword : word.toNat < 256 ^ i)
    (hlen : i + bs.length ≤ 8) :
    (orBytes word i bs).toNat = word.toNat + 256 ^ i * Bytes.toNatLE bs := by
  induction bs generalizing word i with
  | nil => rw [orBytes, Bytes.toNatLE, Nat.mul_zero, Nat.add_zero]
  | cons b bs ih =>
    rw [List.length_cons] at hlen
    have hstep : (word ||| b.toUInt64 <<< UInt64.ofNat (8 * i)).toNat =
        word.toNat + 256 ^ i * b.toNat := by
      have hpow : 256 ^ i = 2 ^ (8 * i) := (Nat.pow_mul 2 8 i).symm
      rw [UInt64.toNat_or, toNat_shifted (by omega), hpow, Nat.or_comm,
        ← Nat.two_pow_add_eq_or_of_lt (hpow ▸ hword), Nat.add_comm]
    have hnext : word.toNat + 256 ^ i * b.toNat < 256 ^ (i + 1) := by
      have hb := b.toNat_lt
      have hmul : 256 ^ i * (b.toNat + 1) ≤ 256 ^ i * 256 := Nat.mul_le_mul_left _ (by omega)
      rw [Nat.mul_add] at hmul
      rw [Nat.pow_succ]
      omega
    rw [orBytes, ih (hstep ▸ hnext) (by omega), hstep, Bytes.toNatLE, Nat.pow_succ, Nat.mul_add,
      Nat.mul_assoc, Nat.add_assoc]

theorem toNat_readBytes {bs : Bytes} (hlen : bs.length ≤ wordSize) :
    (orBytes 0 0 bs).toNat = Bytes.toNatLE bs := by
  have hempty : (0 : UInt64).toNat < 256 ^ 0 := by decide
  have hread := toNat_orBytes hempty ((Nat.zero_add bs.length).symm ▸ hlen)
  rwa [UInt64.toNat_zero, Nat.zero_add, Nat.pow_zero, Nat.one_mul] at hread

/-- Taking out the top bit that is set leaves what lies below it. -/
theorem toNat_and_not {word bit : UInt64} {k low : Nat} (hbit : bit.toNat = 2 ^ k)
    (hlow : low < 2 ^ k) (hword : word.toNat = 2 ^ k + low) : (word &&& ~~~bit).toNat = low := by
  have hk : 2 ^ k < 2 ^ 64 := hbit ▸ bit.toNat_lt
  have hnot : (~~~bit).toNat = 2 ^ 64 - (2 ^ k + 1) := by
    rw [UInt64.toNat_not, hbit, Nat.sub_sub, Nat.add_comm 1]
    rfl
  rw [UInt64.toNat_and, hnot, hword]
  apply Nat.eq_of_testBit_eq
  intro j
  rw [Nat.testBit_and, Nat.testBit_two_pow_sub_succ hk, Nat.testBit_two_pow]
  rcases Nat.lt_trichotomy j k with hj | rfl | hj
  · have hpow := (Nat.pow_lt_pow_iff_right (by decide : 1 < 2)).mp hk
    have hne : ¬k = j := by omega
    have hj' : j < 64 := by omega
    simp [Nat.testBit_two_pow_add_gt hj, hne, hj']
  · simp [Nat.testBit_lt_two_pow hlow]
  · have hle : 2 ^ k * 2 ≤ 2 ^ j := by
      rw [← Nat.pow_succ]
      exact Nat.pow_le_pow_right (by decide) hj
    rw [Nat.testBit_lt_two_pow (show 2 ^ k + low < 2 ^ j by omega),
      Nat.testBit_lt_two_pow (show low < 2 ^ j by omega), Bool.false_and]

theorem toInt_toInt64 {w : UInt64} (h : w.toNat < 2 ^ 63) : w.toInt64.toInt = w.toNat := by
  rw [← Int64.toInt_toBitVec, UInt64.toBitVec_toInt64]
  have hlt : 2 * w.toBitVec.toNat < 2 ^ 64 := by
    show 2 * w.toNat < 2 ^ 64
    omega
  exact BitVec.toInt_eq_toNat_of_lt hlt

theorem toInt_neg_toInt64 {w : UInt64} (h : w.toNat < 2 ^ 63) :
    (-w.toInt64).toInt = -(w.toNat : Int) := by
  rw [Int64.toInt_neg, toInt_toInt64 h]
  exact Int.bmod_eq_of_le (by omega) (by omega)

/-- A word holds the integer of a string that fits it. -/
theorem toInt_readWord {bs : Bytes} (hlen : bs.length ≤ wordSize) :
    (readWord bs).toInt = value bs := by
  rcases List.eq_nil_or_concat bs with rfl | ⟨front, last, rfl⟩
  · rfl
  · rw [List.concat_eq_append] at hlen ⊢
    have hword := toNat_readBytes hlen
    rw [Bytes.toNatLE_concat] at hword
    have hlen : front.length < 8 := by
      rwa [List.length_append, List.length_singleton] at hlen
    have hfront := Bytes.toNatLE_lt front
    have hlast := last.toNat_lt
    have hpow : 256 ^ front.length * 128 ≤ 2 ^ 63 := by
      have hle : 256 ^ front.length ≤ 256 ^ 7 :=
        Nat.pow_le_pow_right (by decide) (Nat.le_of_lt_succ hlen)
      omega
    have hlow : ∀ n < 128, Bytes.toNatLE front + 256 ^ front.length * n <
        256 ^ front.length * 128 := by
      intro n hn
      have hmul : 256 ^ front.length * (n + 1) ≤ 256 ^ front.length * 128 :=
        Nat.mul_le_mul_left _ hn
      rw [Nat.mul_add] at hmul
      omega
    simp only [readWord, List.getLast?_concat, hasSign_iff, value_concat]
    split
    next hsign =>
      -- The sign bit stands on top of the magnitude, which is what is left without it.
      have hbit := toNat_signBit hlen
      rw [← List.length_concat (a := last), List.concat_eq_append] at hbit
      have htop : 2 ^ (8 * front.length + 7) = 256 ^ front.length * 128 := by
        rw [Nat.pow_add, Nat.pow_mul]
      have hmag := hlow (last.toNat % 128) (Nat.mod_lt _ (by decide))
      have hsplit : 256 ^ front.length * last.toNat =
          256 ^ front.length * 128 + 256 ^ front.length * (last.toNat % 128) := by
        rw [← Nat.mul_add]
        congr 1
        omega
      have hset : (orBytes 0 0 (front ++ [last])).toNat = 2 ^ (8 * front.length + 7) +
          (Bytes.toNatLE front + 256 ^ front.length * (last.toNat % 128)) := by
        rw [hword, htop]
        omega
      have hclear := toNat_and_not hbit (htop ▸ hmag) hset
      rw [toInt_neg_toInt64 (by omega), hclear]
    next hsign =>
      have hmag := hlow last.toNat (by omega)
      rw [toInt_toInt64 (by omega), hword]

theorem decode_eq {minimal : Bool} {size : Nat} (hsize : size ≤ wordSize) (bs : Bytes) :
    decode minimal size bs =
      if bs.length > size then .error .overflow
      else if minimal && !isMinimal bs then .error .notMinimal
      else .ok (value bs) := by
  unfold decode
  split
  next => rfl
  next hlen => rw [toInt_readWord (by omega)]

theorem decode_false_eq {size : Nat} (hsize : size ≤ wordSize) (bs : Bytes) :
    decode false size bs = if bs.length > size then .error .overflow else .ok (value bs) := by
  rw [decode_eq hsize, Bool.false_and, if_neg Bool.false_ne_true]

end Number

end BitcoinSpend

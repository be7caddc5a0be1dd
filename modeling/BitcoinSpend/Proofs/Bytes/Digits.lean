import BitcoinSpend.Bytes.Basic
import Mathlib.Algebra.Group.Nat.Defs
import Mathlib.Tactic.Common

namespace BitcoinSpend

namespace Bytes

theorem toNatLE_lt (bs : Bytes) : toNatLE bs < 256 ^ bs.length := by
  induction bs with
  | nil => exact Nat.one_pos
  | cons b bs ih =>
    have hb := b.toNat_lt
    simp only [toNatLE, List.length_cons, Nat.pow_succ]
    omega

theorem toNatLE_append (bs cs : Bytes) :
    toNatLE (bs ++ cs) = toNatLE bs + 256 ^ bs.length * toNatLE cs := by
  induction bs with
  | nil => simp [toNatLE]
  | cons b bs ih =>
    simp only [List.cons_append, toNatLE, ih, List.length_cons, Nat.pow_succ, Nat.mul_add]
    rw [Nat.mul_comm (256 ^ bs.length) 256, Nat.mul_assoc, Nat.add_assoc]

theorem toNatLE_ofNatLE (width n : Nat) : toNatLE (ofNatLE width n) = n % 256 ^ width := by
  induction width generalizing n with
  | zero => simp [ofNatLE, toNatLE, Nat.mod_one]
  | succ width ih =>
    have hlow : (UInt8.ofNat n).toNat = n % 256 := UInt8.toNat_ofNat'
    rw [ofNatLE, toNatLE, ih, hlow, Nat.pow_succ, Nat.mul_comm (256 ^ width), Nat.mod_mul]

/-- Bytes are the digits of a number of their width. -/
theorem eq_ofNatLE_iff {bs : Bytes} {width n : Nat} (hn : n < 256 ^ width) :
    bs = ofNatLE width n ↔ bs.length = width ∧ toNatLE bs = n := by
  constructor
  · intro h
    subst h
    exact ⟨length_ofNatLE width n, by rw [toNatLE_ofNatLE, Nat.mod_eq_of_lt hn]⟩
  · intro h
    obtain ⟨rfl, rfl⟩ := h
    exact (ofNatLE_toNatLE bs).symm

theorem eq_ofUInt16_iff {bs : Bytes} {w : UInt16} :
    bs = ofNatLE 2 w.toNat ↔ bs.length = 2 ∧ UInt16.ofNat (toNatLE bs) = w := by
  rw [eq_ofNatLE_iff w.toNat_lt]
  refine and_congr_right fun hlen => ?_
  have hlt := toNatLE_lt bs
  rw [hlen] at hlt
  rw [← UInt16.toNat_inj, UInt16.toNat_ofNat_of_lt' hlt]

theorem eq_ofUInt32_iff {bs : Bytes} {w : UInt32} :
    bs = ofUInt32 w ↔ bs.length = 4 ∧ UInt32.ofNat (toNatLE bs) = w := by
  rw [ofUInt32, eq_ofNatLE_iff w.toNat_lt]
  refine and_congr_right fun hlen => ?_
  have hlt := toNatLE_lt bs
  rw [hlen] at hlt
  rw [← UInt32.toNat_inj, UInt32.toNat_ofNat_of_lt' hlt]

theorem eq_ofInt32_iff {bs : Bytes} {i : Int32} :
    bs = ofInt32 i ↔ bs.length = 4 ∧ (UInt32.ofNat (toNatLE bs)).toInt32 = i := by
  rw [ofInt32, eq_ofUInt32_iff]
  refine and_congr_right fun _ => ?_
  constructor
  · intro h
    rw [h, Int32.toInt32_toUInt32]
  · intro h
    rw [← h, UInt32.toUInt32_toInt32]

theorem eq_ofInt64_iff {bs : Bytes} {i : Int64} :
    bs = ofInt64 i ↔ bs.length = 8 ∧ (UInt64.ofNat (toNatLE bs)).toInt64 = i := by
  rw [ofInt64, eq_ofNatLE_iff i.toUInt64.toNat_lt]
  refine and_congr_right fun hlen => ?_
  have hlt := toNatLE_lt bs
  rw [hlen] at hlt
  have hword : toNatLE bs = i.toUInt64.toNat ↔ UInt64.ofNat (toNatLE bs) = i.toUInt64 := by
    rw [← UInt64.toNat_inj, UInt64.toNat_ofNat_of_lt' hlt]
  rw [hword]
  constructor
  · intro h
    rw [h, Int64.toInt64_toUInt64]
  · intro h
    rw [← h, UInt64.toUInt64_toInt64]

end Bytes

end BitcoinSpend

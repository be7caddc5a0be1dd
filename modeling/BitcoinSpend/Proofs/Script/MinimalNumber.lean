import BitcoinSpend.Proofs.Script.Number

namespace BitcoinSpend

namespace Number

theorem toNatLE_magnitude (n : Nat) : Bytes.toNatLE (magnitude n) = n := by
  fun_induction magnitude n with
  | case1 => rfl
  | case2 n _ ih =>
    rw [Bytes.toNatLE, ih, UInt8.toNat_ofNat']
    omega

theorem magnitude_eq_nil_iff {n : Nat} : magnitude n = [] ↔ n = 0 := by
  rw [magnitude]
  split <;> simp [*]

theorem getLast?_magnitude_ne (n : Nat) : (magnitude n).getLast? ≠ some 0 := by
  fun_induction magnitude n with
  | case1 => simp
  | case2 n hn ih =>
    cases hrest : magnitude (n / 256) with
    | nil =>
      have hsmall := magnitude_eq_nil_iff.mp hrest
      have hdigit : (UInt8.ofNat n).toNat = n := by
        rw [UInt8.toNat_ofNat']
        omega
      rw [List.getLast?_singleton, ne_eq, Option.some.injEq, ← UInt8.toNat_inj, hdigit]
      exact hn
    | cons d ds => rwa [List.getLast?_cons_cons, ← hrest]

/-- Digits without a leading zero are those of their number. -/
theorem magnitude_toNatLE {ds : Bytes} (h : ds.getLast? ≠ some 0) :
    magnitude (Bytes.toNatLE ds) = ds := by
  induction ds with
  | nil =>
    rw [Bytes.toNatLE]
    exact magnitude_eq_nil_iff.mpr rfl
  | cons d ds ih =>
    have hd := d.toNat_lt
    have hrest : magnitude (Bytes.toNatLE ds) = ds := by
      cases ds with
      | nil => exact magnitude_eq_nil_iff.mpr rfl
      | cons e es => exact ih (by rwa [List.getLast?_cons_cons] at h)
    have hne : Bytes.toNatLE (d :: ds) ≠ 0 := by
      intro hzero
      rw [Bytes.toNatLE] at hzero
      have htail : ds = [] := by
        rw [← hrest]
        exact magnitude_eq_nil_iff.mpr (by omega)
      subst htail
      have hdigit : d = 0 := UInt8.toNat_inj.mp (show d.toNat = 0 by omega)
      simp [hdigit] at h
    have hlow : UInt8.ofNat (Bytes.toNatLE (d :: ds)) = d := by
      rw [← UInt8.toNat_inj, UInt8.toNat_ofNat', Bytes.toNatLE]
      omega
    have hhigh : Bytes.toNatLE (d :: ds) / 256 = Bytes.toNatLE ds := by
      rw [Bytes.toNatLE]
      omega
    rw [magnitude, if_neg hne, hlow, hhigh, hrest]

theorem withSign_concat (negative : Bool) (front : Bytes) (b : UInt8) :
    withSign negative (front ++ [b]) =
      if 128 ≤ b.toNat then front ++ [b] ++ [if negative then 0x80 else 0x00]
      else front ++ [if negative then b ||| 0x80 else b] := by
  have hlt : b < 0x80 ↔ ¬128 ≤ b.toNat := by
    rw [UInt8.lt_iff_toNat_lt]
    exact Nat.not_le.symm
  induction front with
  | nil => simp only [List.nil_append, withSign, hlt, ite_not, List.singleton_append]
  | cons c front ih =>
    have hstep : withSign negative (c :: (front ++ [b])) =
        c :: withSign negative (front ++ [b]) := by
      cases front <;> rfl
    rw [List.cons_append, hstep, ih]
    split <;> rfl

theorem isMinimal_concat_iff {front : Bytes} {last : UInt8} :
    isMinimal (front ++ [last]) = true ↔ last.toNat % 128 ≠ 0 ∨
      ∃ init before, front = init ++ [before] ∧ 128 ≤ before.toNat := by
  have hlast : (last &&& 0x7f != 0) = true ↔ last.toNat % 128 ≠ 0 := by
    rw [bne_iff_ne, ne_eq, ← UInt8.toNat_inj, toNat_withoutSign]
    rfl
  rcases List.eq_nil_or_concat front with rfl | ⟨init, before, rfl⟩
  · simp [isMinimal, hlast]
  · simp only [List.concat_eq_append, isMinimal, List.reverse_append, List.reverse_singleton,
      List.singleton_append, Bool.or_eq_true, hlast, hasSign_iff]
    refine or_congr_right ⟨fun h => ⟨init, before, rfl, h⟩, fun h => ?_⟩
    obtain ⟨_, _, heq, hbefore⟩ := h
    obtain ⟨_, rfl⟩ := List.append_singleton_inj.mp heq
    exact hbefore

theorem toNat_or_sign {b : UInt8} (h : b.toNat < 128) : (b ||| 0x80).toNat = b.toNat + 128 := by
  have hor := Nat.two_pow_add_eq_or_of_lt (i := 7) h 1
  rw [UInt8.toNat_or, Nat.or_comm]
  exact hor.symm.trans (Nat.add_comm _ _)

/-- What is written for an integer is minimal and stands for it. -/
theorem isMinimal_encode_and_value (n : Int) :
    isMinimal (encode n) = true ∧ value (encode n) = n := by
  have hdigits := toNatLE_magnitude n.natAbs
  have htop := getLast?_magnitude_ne n.natAbs
  unfold encode
  rcases List.eq_nil_or_concat (magnitude n.natAbs) with hnil | ⟨front, last, hconcat⟩
  · have hn := magnitude_eq_nil_iff.mp hnil
    rw [hnil]
    exact ⟨rfl, (Int.natAbs_eq_zero.mp hn).symm⟩
  · rw [List.concat_eq_append] at hconcat
    rw [hconcat, Bytes.toNatLE_concat] at hdigits
    rw [hconcat, List.getLast?_concat, ne_eq, Option.some.injEq, ← UInt8.toNat_inj] at htop
    have hlast : last.toNat ≠ 0 := htop
    rw [hconcat, withSign_concat]
    split
    next hfull =>
      -- The top bit is taken, so that the sign stands in a byte of its own.
      refine ⟨isMinimal_concat_iff.mpr (.inr ⟨front, last, rfl, hfull⟩), ?_⟩
      rw [value_concat, Bytes.toNatLE_concat]
      by_cases hneg : n < 0
      · simp only [hneg, decide_true, if_true]
        show -((_ + _ * 0 : Nat) : Int) = n
        omega
      · simp only [hneg, decide_false, Bool.false_eq_true, if_false]
        show ((_ + _ * 0 : Nat) : Int) = n
        omega
    next hroom =>
      rw [isMinimal_concat_iff, value_concat]
      by_cases hneg : n < 0
      · have hsigned := toNat_or_sign (b := last) (by omega)
        have hlow : (last ||| 0x80).toNat % 128 = last.toNat := by omega
        simp only [hneg, decide_true, if_true, hlow]
        rw [if_pos (by omega)]
        exact ⟨.inl hlast, by omega⟩
      · simp only [hneg, decide_false, Bool.false_eq_true, if_false]
        rw [if_neg hroom]
        exact ⟨.inl (by omega), by omega⟩

theorem encode_of_digits {ds : Bytes} (hne : ds ≠ []) (htop : ds.getLast? ≠ some 0)
    (negative : Bool) :
    encode (if negative then -(Bytes.toNatLE ds : Int) else Bytes.toNatLE ds) =
      withSign negative ds := by
  have hdigits := magnitude_toNatLE htop
  have hzero : Bytes.toNatLE ds ≠ 0 := by
    intro h
    rw [h] at hdigits
    exact hne (hdigits.symm.trans (magnitude_eq_nil_iff.mpr rfl))
  cases negative with
  | false =>
    have hsign : ¬(Bytes.toNatLE ds : Int) < 0 := by omega
    simp only [Bool.false_eq_true, if_false, encode, hsign, decide_false, Int.natAbs_natCast,
      hdigits]
  | true =>
    have hsign : -(Bytes.toNatLE ds : Int) < 0 := by omega
    simp only [if_true, encode, hsign, decide_true, Int.natAbs_neg, Int.natAbs_natCast, hdigits]

/-- A minimal string is what is written for its integer. -/
theorem encode_value {d : Bytes} (h : isMinimal d = true) : encode (value d) = d := by
  rcases List.eq_nil_or_concat d with rfl | ⟨front, last, rfl⟩
  · show withSign _ (magnitude 0) = []
    rw [magnitude_eq_nil_iff.mpr rfl, withSign]
  · rw [List.concat_eq_append] at h ⊢
    have hlast := last.toNat_lt
    have hlow := toNat_withoutSign last
    have hvalue : value (front ++ [last]) = if decide (128 ≤ last.toNat) then
        -(Bytes.toNatLE (front ++ [last &&& 0x7f]) : Int)
        else Bytes.toNatLE (front ++ [last &&& 0x7f]) := by
      rw [value_concat, Bytes.toNatLE_concat, hlow]
      by_cases hsign : 128 ≤ last.toNat
      · simp only [hsign, decide_true, if_true]
      · rw [Nat.mod_eq_of_lt (by omega : last.toNat < 128)]
        simp only [hsign, decide_false, Bool.false_eq_true, if_false]
    by_cases hzero : last.toNat % 128 = 0
    · -- The last byte is only a sign, and the digits end in front of it.
      obtain ⟨init, before, rfl, hbefore⟩ :=
        (isMinimal_concat_iff.mp h).resolve_left (not_not_intro hzero)
      have htop : (init ++ [before]).getLast? ≠ some 0 := by
        rw [List.getLast?_concat, ne_eq, Option.some.injEq]
        rintro rfl
        exact absurd hbefore (by decide)
      have hsame : Bytes.toNatLE (init ++ [before] ++ [last &&& 0x7f]) =
          Bytes.toNatLE (init ++ [before]) := by
        rw [Bytes.toNatLE_concat, hlow, hzero, Nat.mul_zero, Nat.add_zero]
      rw [hvalue, hsame, encode_of_digits (by simp) htop, withSign_concat, if_pos hbefore]
      congr 2
      rw [← UInt8.toNat_inj]
      split
      next hsign =>
        have hsign := of_decide_eq_true hsign
        show 128 = last.toNat
        omega
      next hsign =>
        have hsign := of_decide_eq_false (Bool.eq_false_iff.mpr hsign)
        show 0 = last.toNat
        omega
    · have htop : (front ++ [last &&& 0x7f]).getLast? ≠ some 0 := by
        rw [List.getLast?_concat, ne_eq, Option.some.injEq, ← UInt8.toNat_inj, hlow]
        exact hzero
      rw [hvalue, encode_of_digits (by simp) htop, withSign_concat, if_neg (by omega)]
      congr 2
      rw [← UInt8.toNat_inj]
      split
      next hsign =>
        have hsign := of_decide_eq_true hsign
        rw [toNat_or_sign (by omega), hlow]
        omega
      next hsign =>
        have hsign := of_decide_eq_false (Bool.eq_false_iff.mpr hsign)
        omega

theorem eq_encode_iff {d : Bytes} {n : Int} :
    d = encode n ↔ isMinimal d = true ∧ value d = n := by
  constructor
  · rintro rfl
    exact isMinimal_encode_and_value n
  · rintro ⟨hminimal, rfl⟩
    exact (encode_value hminimal).symm

/-- A minimal string uses its last byte. -/
theorem two_mul_natAbs_value_ge {front : Bytes} {last : UInt8}
    (h : isMinimal (front ++ [last]) = true) :
    256 ^ front.length ≤ 2 * (value (front ++ [last])).natAbs := by
  have hmag : Bytes.toNatLE front + 256 ^ front.length * (last.toNat % 128) ≤
      (value (front ++ [last])).natAbs := by
    have hlast := last.toNat_lt
    rw [value_concat]
    split
    next => rw [Int.natAbs_neg, Int.natAbs_natCast]
    next hsign => rw [Int.natAbs_natCast, Nat.mod_eq_of_lt (by omega : last.toNat < 128)]
  rcases isMinimal_concat_iff.mp h with hlast | ⟨init, before, rfl, hbefore⟩
  · have hmul : 256 ^ front.length * 1 ≤ 256 ^ front.length * (last.toNat % 128) :=
      Nat.mul_le_mul_left _ (by omega)
    omega
  · have hmul : 256 ^ init.length * 128 ≤ 256 ^ init.length * before.toNat :=
      Nat.mul_le_mul_left _ hbefore
    have htotal := Bytes.toNatLE_concat init before
    rw [List.length_append, List.length_singleton, Nat.pow_succ] at hmag ⊢
    omega

/-- An integer is written with no more bytes than leave room for its magnitude and a sign. -/
theorem length_encode_le_iff {n : Int} {width : Nat} :
    (encode n).length ≤ width ↔ 2 * n.natAbs < 256 ^ width := by
  obtain ⟨hminimal, hvalue⟩ := isMinimal_encode_and_value n
  have hupper := two_mul_natAbs_value_lt (encode n)
  rw [hvalue] at hupper
  constructor
  · intro h
    exact Nat.lt_of_lt_of_le hupper (Nat.pow_le_pow_right (by decide) h)
  · intro h
    rcases List.eq_nil_or_concat (encode n) with hnil | ⟨front, last, hconcat⟩
    · rw [hnil]
      exact Nat.zero_le _
    · rw [List.concat_eq_append] at hconcat
      have hlower := two_mul_natAbs_value_ge (hconcat ▸ hminimal)
      rw [← hconcat, hvalue] at hlower
      have hlt := (Nat.pow_lt_pow_iff_right (by decide : 1 < 256)).mp (Nat.lt_of_le_of_lt hlower h)
      rw [hconcat, List.length_append, List.length_singleton]
      exact hlt

theorem length_encode_value_le (d : Bytes) : (encode (value d)).length ≤ d.length :=
  length_encode_le_iff.mpr (two_mul_natAbs_value_lt d)

theorem length_encode_le_wordSize_iff {n : Int64} :
    (encode n.toInt).length ≤ wordSize ↔ n ≠ Int64.minValue := by
  have hlow := Int64.le_toInt n
  have hhigh := Int64.toInt_lt n
  have hword : 256 ^ wordSize = 2 ^ 64 := by decide
  rw [length_encode_le_iff, hword, ne_eq, ← Int64.toInt_inj, Int64.toInt_minValue]
  omega

theorem length_encode_minValue : (encode Int64.minValue.toInt).length = 9 := by
  have hfits : (encode Int64.minValue.toInt).length ≤ 9 :=
    length_encode_le_iff.mpr (by rw [Int64.toInt_minValue]; decide)
  have hlong := length_encode_le_wordSize_iff.not.mpr (not_not_intro rfl)
  simp only [wordSize] at hlong
  omega

theorem decode_true_eq_ok_iff {size : Nat} (hsize : size ≤ wordSize) {d : Bytes} {n : Int} :
    decode true size d = .ok n ↔ d.length ≤ size ∧ d = encode n := by
  rw [decode_eq hsize, eq_encode_iff]
  split
  next hlong => simp [Nat.not_le.mpr hlong]
  next hfits =>
    cases isMinimal d with
    | false => simp
    | true => simp [Nat.not_lt.mp hfits]

/-- Numbers of at most eight bytes. A reader of minimal numbers takes just the strings that are
written for integers, within its size. A reader of any numbers takes all strings of its size, each
as the integer that it stands for, which is written with no more bytes. Every signed word of 64 bits
is read back, but for the least one, whose nine bytes are too many. -/
theorem minimal_encoding_unique {size : Nat} (hsize : size ≤ 8) (d : Bytes) (n : Int64) :
    (decode true size d = .ok n.toInt ↔ d.length ≤ size ∧ d = encode n.toInt) ∧
    ((∃ v, decode false size d = .ok v) ↔ d.length ≤ size) ∧
    (∀ v, decode false size d = .ok v → v = value d ∧ (encode v).length ≤ d.length) ∧
    (n ≠ Int64.minValue → decode false wordSize (encode n.toInt) = .ok n.toInt) ∧
    (encode Int64.minValue.toInt).length = 9 ∧
      decode false wordSize (encode Int64.minValue.toInt) = .error .overflow := by
  refine ⟨decode_true_eq_ok_iff hsize, ?_, ?_, ?_, length_encode_minValue, ?_⟩
  · rw [decode_false_eq hsize]
    split
    next hlong => simp [Nat.not_le.mpr hlong]
    next hfits => simp [Nat.not_lt.mp hfits]
  · intro v hv
    rw [decode_false_eq hsize] at hv
    split at hv
    next => cases hv
    next =>
      cases hv
      exact ⟨rfl, length_encode_value_le d⟩
  · intro hn
    have hlen := length_encode_le_wordSize_iff.mpr hn
    rw [decode_false_eq (Nat.le_refl _), if_neg (Nat.not_lt.mpr hlen),
      (isMinimal_encode_and_value _).2]
  · rw [decode_false_eq (Nat.le_refl _), length_encode_minValue]
    rfl

/-- The least number of eight bytes, and eight bytes of which only the sign is set. -/
theorem minimal_encoding_of_eight_bytes :
    8 ≤ 8 ∧ decode true 8 (List.replicate 8 0xff) = .ok (-Int64.maxValue).toInt ∧
      List.replicate 8 0xff = encode (-Int64.maxValue).toInt ∧
      decode false 8 (List.replicate 7 0 ++ [0x80]) = .ok 0 ∧
      value (List.replicate 7 0 ++ [0x80]) = 0 ∧ (encode 0).length ≤ 8 := by
  have hleast : decode true 8 (List.replicate 8 0xff) = .ok (-Int64.maxValue).toInt := by
    decide +kernel
  have hzero : decode false 8 (List.replicate 7 0 ++ [0x80]) = .ok 0 := by decide +kernel
  obtain ⟨hminimal, _⟩ := minimal_encoding_unique (Nat.le_refl 8) (List.replicate 8 0xff)
    (-Int64.maxValue)
  obtain ⟨_, _, hvalue, _⟩ := minimal_encoding_unique (Nat.le_refl 8)
    (List.replicate 7 0 ++ [0x80]) 0
  obtain ⟨hv, hlen⟩ := hvalue 0 hzero
  exact ⟨Nat.le_refl 8, hleast, (hminimal.mp hleast).2, hzero, hv.symm, hlen⟩

end Number

end BitcoinSpend

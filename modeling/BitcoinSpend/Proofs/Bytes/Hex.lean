import BitcoinSpend.Bytes.Hex
import BitcoinSpend.Text.Blank
import Mathlib.Data.String.Basic

namespace BitcoinSpend

/-- Listing a byte array from a place on puts its bytes behind those that were listed before. -/
theorem listBytes_from (bs : ByteArray) (place : Nat) (listed : Bytes) :
    ByteArray.toList.loop bs place listed = listed.reverse ++ bs.data.toList.drop place := by
  fun_induction ByteArray.toList.loop bs place listed with
  | case1 place listed hplace ih =>
    have hlen : place < bs.data.toList.length := hplace
    have hbyte : bs.get! place = bs.data.toList[place] := getElem!_pos bs.data place hplace
    rw [ih, List.reverse_cons, hbyte, List.append_assoc, List.singleton_append,
      ← List.drop_eq_getElem_cons hlen]
  | case2 place listed hplace =>
    have hlen : bs.data.toList.length ≤ place := Nat.not_lt.mp hplace
    rw [List.drop_eq_nil_of_le hlen, List.append_nil]

theorem toUTF8_of_ascii {cs : List Char} (h : ∀ c ∈ cs, c.val ≤ 127) :
    (String.ofList cs).toUTF8.toList = cs.map fun c => c.val.toUInt8 := by
  have hsingle : cs.flatMap String.utf8EncodeChar = cs.map fun c => c.val.toUInt8 := by
    rw [List.map_eq_flatMap]
    refine List.flatMap_congr fun c hc => ?_
    exact String.utf8EncodeChar_eq_singleton (Char.utf8Size_eq_one_iff.mpr (h c hc))
  show ByteArray.toList.loop _ 0 [] = _
  rw [listBytes_from, String.toUTF8, String.toByteArray_ofList, List.utf8Encode,
    List.data_toByteArray, hsingle]
  rfl

namespace Hex

/-- The digits that are written. -/
def alphabet : List Char :=
  ['0', '1', '2', '3', '4', '5', '6', '7', '8', '9', 'a', 'b', 'c', 'd', 'e', 'f']

theorem digit_mem_alphabet {n : UInt8} (hn : n < 16) : digit n ∈ alphabet := by
  have hall : ∀ k : Fin 16, digit (UInt8.ofNat k) ∈ alphabet := by decide
  have hlt : n.toNat < 16 := UInt8.lt_iff_toNat_lt.mp hn
  simpa using hall ⟨n.toNat, hlt⟩

theorem value?_digit {n : UInt8} (hn : n < 16) : value? (digit n).val.toUInt8 = some n := by
  have hall : ∀ k : Fin 16, value? (digit (UInt8.ofNat k)).val.toUInt8 = some (UInt8.ofNat k) := by
    decide
  have hlt : n.toNat < 16 := UInt8.lt_iff_toNat_lt.mp hn
  simpa using hall ⟨n.toNat, hlt⟩

theorem high_lt (b : UInt8) : b / 16 < 16 := by
  rw [UInt8.lt_iff_toNat_lt, UInt8.toNat_div]
  have := b.toNat_lt
  show b.toNat / 16 < 16
  omega

theorem low_lt (b : UInt8) : b % 16 < 16 := by
  rw [UInt8.lt_iff_toNat_lt, UInt8.toNat_mod]
  exact Nat.mod_lt _ (by decide)

theorem high_low (b : UInt8) : 16 * (b / 16) + b % 16 = b := by
  apply UInt8.toNat_inj.mp
  simp only [UInt8.toNat_add, UInt8.toNat_mul, UInt8.toNat_div, UInt8.toNat_mod]
  have := b.toNat_lt
  show (16 * (b.toNat / 16) % 256 + b.toNat % 16) % 256 = b.toNat
  omega

/-- What holds of all digits holds of every character that is written. -/
theorem forall_mem_digits {P : Char → Prop} [DecidablePred P] (h : alphabet.all (P ·) = true)
    (bs : Bytes) : ∀ c ∈ bs.flatMap digits, P c := by
  intro c hc
  have hmem : c ∈ alphabet := by
    obtain ⟨b, _, hc⟩ := List.mem_flatMap.mp hc
    simp only [digits, List.mem_cons, List.not_mem_nil, or_false] at hc
    rcases hc with rfl | rfl
    · exact digit_mem_alphabet (high_lt b)
    · exact digit_mem_alphabet (low_lt b)
  exact of_decide_eq_true (List.all_eq_true.mp h c hmem)

theorem forall_mem_encode {P : Char → Prop} [DecidablePred P] (h : alphabet.all (P ·) = true)
    (bs : Bytes) : ∀ c ∈ (encode bs).toList, P c := by
  rw [encode, String.toList_ofList]
  exact forall_mem_digits h bs

theorem decodePairs_digits (position : Nat) (bs : Bytes) :
    decodePairs position ((bs.flatMap digits).map fun c => c.val.toUInt8) = .ok bs := by
  induction bs generalizing position with
  | nil => rfl
  | cons b bs ih =>
    simp only [List.flatMap_cons, digits, List.cons_append, List.nil_append, List.map_cons,
      decodePairs, digitAt, value?_digit (high_lt b), value?_digit (low_lt b), ih, high_low, bind,
      Except.bind, pure, Except.pure]

theorem length_flatMap_digits (bs : Bytes) : (bs.flatMap digits).length = 2 * bs.length := by
  induction bs with
  | nil => rfl
  | cons b bs ih =>
    rw [List.flatMap_cons, List.length_append, ih, List.length_cons]
    show 2 + 2 * bs.length = _
    omega

theorem decode_encode (bs : Bytes) : decode (encode bs) = .ok bs := by
  have hascii := forall_mem_digits (P := fun c => c.val ≤ 127) (by decide) bs
  simp only [decode, encode, toUTF8_of_ascii hascii, decodePairs_digits, List.length_map,
    length_flatMap_digits]
  rw [if_neg (by omega)]

theorem encode_inj {bs cs : Bytes} (h : encode bs = encode cs) : bs = cs := by
  have hdecode := congrArg decode h
  rw [decode_encode, decode_encode] at hdecode
  exact Except.ok.inj hdecode

end Hex

/-- A text without blanks is as it is without the blanks at its ends. -/
theorem Text.trim_eq_self {text : String} (h : ∀ c ∈ text.toList, isBlank c = false) :
    trim text = text := by
  have hkept : ∀ {cs : List Char}, (∀ c ∈ cs, isBlank c = false) → cs.dropWhile isBlank = cs := by
    intro cs hcs
    cases cs with
    | nil => rfl
    | cons c cs => simp [List.dropWhile, hcs c List.mem_cons_self]
  show String.ofList ((text.toList.dropWhile isBlank).reverse.dropWhile isBlank).reverse = text
  rw [hkept h, hkept (fun c hc => h c (List.mem_reverse.mp hc)), List.reverse_reverse,
    String.ofList_toList]

theorem Hex.trim_encode (bs : Bytes) : Text.trim (encode bs) = encode bs :=
  Text.trim_eq_self (forall_mem_encode (by decide) bs)

end BitcoinSpend

import BitcoinSpend.Machine.Trace
import BitcoinSpend.Proofs.Machine.Arithmetic
import BitcoinSpend.Proofs.Script.MinimalNumber

namespace BitcoinSpend

namespace Bytes

theorem toNatLE_eq_zero_iff {bs : Bytes} : toNatLE bs = 0 ↔ ∀ b ∈ bs, b = 0 := by
  induction bs with
  | nil => simp [toNatLE]
  | cons b bs ih =>
    have hsum : toNatLE (b :: bs) = 0 ↔ b.toNat = 0 ∧ toNatLE bs = 0 := by
      rw [toNatLE]
      omega
    rw [hsum, ih, List.forall_mem_cons, ← UInt8.toNat_inj]
    rfl

end Bytes

namespace Number

/-- Only the last byte may hold a bit that does not count. -/
theorem isTrue_concat (front : Bytes) (last : UInt8) :
    isTrue (front ++ [last]) = (front.any (· != 0) || (last != 0 && last != 0x80)) := by
  induction front with
  | nil => rfl
  | cons b front ih =>
    have hstep : isTrue (b :: (front ++ [last])) = (b != 0 || isTrue (front ++ [last])) := by
      cases front <;> rfl
    rw [List.cons_append, hstep, ih, List.any_cons, Bool.or_assoc]

theorem magnitude_bits_eq_zero_iff {b : UInt8} : b.toNat % 128 = 0 ↔ b = 0 ∨ b = 0x80 := by
  have hb := b.toNat_lt
  have hzero : b = 0 ↔ b.toNat = 0 := UInt8.toNat_inj.symm
  have hsign : b = 0x80 ↔ b.toNat = 128 := UInt8.toNat_inj.symm
  rw [hzero, hsign]
  omega

theorem value_concat_eq_zero_iff {front : Bytes} {last : UInt8} :
    value (front ++ [last]) = 0 ↔ Bytes.toNatLE front = 0 ∧ last.toNat % 128 = 0 := by
  have hsum : ∀ n : Nat, Bytes.toNatLE front + 256 ^ front.length * n = 0 ↔
      Bytes.toNatLE front = 0 ∧ n = 0 := by
    intro n
    have hpow : 256 ^ front.length ≠ 0 := (Nat.pow_pos (by decide)).ne'
    rw [Nat.add_eq_zero_iff, Nat.mul_eq_zero, or_iff_right hpow]
  rw [value_concat]
  split
  next => rw [Int.neg_eq_zero, Int.natCast_eq_zero, hsum]
  next hsign => rw [Int.natCast_eq_zero, hsum, Nat.mod_eq_of_lt (by omega : last.toNat < 128)]

theorem isTrue_eq_false_iff (d : Bytes) : isTrue d = false ↔ value d = 0 := by
  rcases List.eq_nil_or_concat d with rfl | ⟨front, last, rfl⟩
  · exact iff_of_true rfl rfl
  · rw [List.concat_eq_append, isTrue_concat, value_concat_eq_zero_iff, Bytes.toNatLE_eq_zero_iff,
      magnitude_bits_eq_zero_iff]
    simp [imp_iff_not_or]

theorem isTrue_eq_decide (d : Bytes) : isTrue d = decide (value d ≠ 0) := by
  rw [Bool.eq_iff_iff, decide_eq_true_iff, ne_eq, ← isTrue_eq_false_iff, Bool.not_eq_false]

theorem isTrue_iff_decode_ne {d : Bytes} (hd : d.length ≤ wordSize) :
    isTrue d = true ↔ decode false wordSize d ≠ .ok 0 := by
  rw [decode_false_eq (Nat.le_refl _), if_neg (Nat.not_lt.mpr hd), isTrue_eq_decide,
    decide_eq_true_iff, ne_eq, ne_eq, Except.ok.injEq]

theorem isTrue_encode (n : Int) : isTrue (encode n) = decide (n ≠ 0) := by
  rw [isTrue_eq_decide, (isMinimal_encode_and_value n).2]

theorem encode_ofBool_inj {a b : Bool} (h : encode (ofBool a) = encode (ofBool b)) : a = b := by
  have hvalue := congrArg isTrue h
  rw [isTrue_encode, isTrue_encode] at hvalue
  revert hvalue
  cases a <;> cases b <;> decide

end Number

namespace State

variable {ctx : Context} {q : Script} {d : Bytes} {st alt : Stack}

/-- An opening opcode in front of the queue of a state chooses a branch: an observer is told so, and
the branch and what follows the conditional are left to run. -/
def Takes (ctx : Context) (s : State) (first : Bool) : Prop :=
  ∃ c, Conditional.split? s.queue = some c ∧
    s.choice? false = some (.branch first (c.branch first).length) ∧
    s.runCommand ctx (.op .ifTrue) =
      .ok { s with queue := c.branch first ++ c.rest, stack := s.stack.tail }

theorem takes_iff {first : Bool} : (⟨q, d :: st, alt⟩ : State).Takes ctx first ↔
    (Conditional.split? q).isSome = true ∧ first = Number.isTrue d := by
  have hrun : runCommand ctx (.op .ifTrue) ⟨q, d :: st, alt⟩ =
      runConditional false ⟨q, d :: st, alt⟩ := rfl
  unfold Takes
  rw [hrun, runConditional, choice?]
  cases Conditional.split? q with
  | none => simp
  | some c =>
    simp only [Bool.bne_false, Option.some.injEq, Event.branch.injEq, exists_eq_left',
      Option.isSome_some, true_and]
    constructor
    · intro h
      exact h.1.1.symm
    · rintro rfl
      exact ⟨⟨rfl, rfl⟩, rfl⟩

theorem runCommand_isNonzero (hd : d.length ≤ Number.operandSize) :
    runCommand ctx (.op ⟨0x92⟩) ⟨q, d :: st, alt⟩ =
      .ok ⟨q, Number.encode (Number.ofBool (Number.isTrue d)) :: st, alt⟩ := by
  have happly : ∀ a, Number.Operand a →
      UnaryOp.isNonzero.apply a = .ok (Number.ofBool (a ≠ 0)) := fun a _ => rfl
  have hcomputes := StackInstruction.computes_unary happly
  have hpush := hcomputes.pushes [d] st rfl (List.forall_mem_singleton.mpr hd)
  have hrun : runCommand ctx (.op ⟨0x92⟩) ⟨q, d :: st, alt⟩ =
      onStack ⟨q, [d] ++ st, alt⟩ (StackInstruction.unary .isNonzero).run := rfl
  rw [hrun, onStack, hpush, Number.isTrue_eq_decide]
  rfl

end State

open Number

/-- A byte string is false just when the integer that it stands for, of whatever size, is zero. So
it is true just when it is not read as zero, if it is short enough to be read at all. An opening
opcode chooses the branch that the opcode for being nonzero names, if its conditional has an end,
and a number that is pushed, the least word included, is popped as true unless it is zero. -/
theorem Number.truth_agrees_with_value (ctx : Context) (d : Bytes) (q : Script) (st alt : Stack)
    (n : Int64) :
    (isTrue d = false ↔ value d = 0) ∧
    (d.length ≤ 8 → (isTrue d = true ↔ decode false wordSize d ≠ .ok 0)) ∧
    (d.length ≤ 4 → ∀ first, (⟨q, d :: st, alt⟩ : State).Takes ctx first ↔
      (Conditional.split? q).isSome = true ∧
        State.runCommand ctx (.op ⟨0x92⟩) ⟨q, d :: st, alt⟩ =
          .ok ⟨q, (if first then [1] else []) :: st, alt⟩) ∧
    (do Stack.pushNumber n.toInt; Stack.popBool : StackM StackError Bool) st =
      .ok (decide (n ≠ 0)) st := by
  refine ⟨isTrue_eq_false_iff d, isTrue_iff_decode_ne, fun hd first => ?_, ?_⟩
  · have hbytes : (if first then [1] else []) = encode (ofBool first) := by
      cases first <;> simp [ofBool]
    rw [State.takes_iff, State.runCommand_isNonzero hd, hbytes]
    refine and_congr_right fun _ => ⟨fun h => h ▸ rfl, fun h => ?_⟩
    have hstate := State.mk.inj (Except.ok.inj h)
    exact (encode_ofBool_inj (List.cons.inj hstate.2.1).1).symm
  · have hpop : (do Stack.pushNumber n.toInt; Stack.popBool : StackM StackError Bool) st =
        .ok (isTrue (encode n.toInt)) st := rfl
    rw [hpop, isTrue_encode, decide_eq_decide.mpr]
    exact not_congr (Int64.toInt_inj (y := 0))

/-- A zero of two bytes with a sign that opens a conditional of two branches, and the least word. -/
theorem Number.truth_of_paddedZero :
    let ctx : Context := ⟨Secp256k1.scheme, FixedBytes.zero 32, [], none⟩
    let s : State := ⟨[.op .pushOne, .op .orElse, .op .dup, .op .endIf], [[0x00, 0x80]], []⟩
    ([0x00, 0x80] : Bytes).length ≤ 4 ∧ isTrue [0x00, 0x80] = false ∧
      decode false wordSize [0x00, 0x80] = .ok 0 ∧ s.Takes ctx false ∧ ¬s.Takes ctx true ∧
      (do Stack.pushNumber Int64.minValue.toInt; Stack.popBool : StackM StackError Bool) [] =
        .ok true [] := by
  intro ctx s
  obtain ⟨hfalse, hread, htakes, hpop⟩ := truth_agrees_with_value ctx [0x00, 0x80]
    [.op .pushOne, .op .orElse, .op .dup, .op .endIf] [] [] Int64.minValue
  have hvalue : isTrue [0x00, 0x80] = false := hfalse.mpr (by decide)
  have hzero : decode false wordSize [0x00, 0x80] = .ok 0 := by
    by_contra h
    rw [(hread (by decide)).mpr h] at hvalue
    cases hvalue
  have hnonzero : State.runCommand ctx (.op ⟨0x92⟩) s = .ok ⟨s.queue, [[]], []⟩ := by
    decide +kernel
  refine ⟨by decide, hvalue, hzero, (htakes (by decide) false).mpr ⟨by decide, hnonzero⟩, ?_, hpop⟩
  intro h
  have hone := ((htakes (by decide) true).mp h).2
  cases hone.symm.trans hnonzero

end BitcoinSpend

import BitcoinSpend.Curve.Ecdsa
import BitcoinSpend.Proofs.Machine.Bounds
import BitcoinSpend.Proofs.Machine.Operands
import Mathlib.Data.List.Basic

namespace BitcoinSpend

/-- A function of one, two or three integers. -/
inductive Arithmetic where
  | unary (f : Int → Int)
  | binary (f : Int → Int → Int)
  | ternary (f : Int → Int → Int → Int)

namespace Arithmetic

def arity : Arithmetic → Nat
  | unary _ => 1
  | binary _ => 2
  | ternary _ => 3

/-- The value at operands that are listed from the deepest to the top one. -/
def result : Arithmetic → List Int → Option Int
  | unary f, [a] => some (f a)
  | binary f, [a, b] => some (f a b)
  | ternary f, [a, b, c] => some (f a b c)
  | _, _ => none

end Arithmetic

/-- What an arithmetic opcode computes. -/
def Opcode.arithmetic? (op : Opcode) : Option Arithmetic :=
  match op.byte.toNat with
  | 0x8b => some (.unary fun a => a + 1)
  | 0x8c => some (.unary fun a => a - 1)
  | 0x8f => some (.unary fun a => -a)
  | 0x90 => some (.unary fun a => a.natAbs)
  | 0x91 => some (.unary fun a => if a = 0 then 1 else 0)
  | 0x92 => some (.unary fun a => if a ≠ 0 then 1 else 0)
  | 0x93 => some (.binary fun a b => a + b)
  | 0x94 => some (.binary fun a b => a - b)
  | 0x9a => some (.binary fun a b => if a ≠ 0 ∧ b ≠ 0 then 1 else 0)
  | 0x9b => some (.binary fun a b => if a ≠ 0 ∨ b ≠ 0 then 1 else 0)
  | 0x9c => some (.binary fun a b => if a = b then 1 else 0)
  | 0x9e => some (.binary fun a b => if a ≠ b then 1 else 0)
  | 0x9f => some (.binary fun a b => if a < b then 1 else 0)
  | 0xa0 => some (.binary fun a b => if a > b then 1 else 0)
  | 0xa1 => some (.binary fun a b => if a ≤ b then 1 else 0)
  | 0xa2 => some (.binary fun a b => if a ≥ b then 1 else 0)
  | 0xa3 => some (.binary fun a b => min a b)
  | 0xa4 => some (.binary fun a b => max a b)
  | 0xa5 => some (.ternary fun a b c => if b ≤ a ∧ a < c then 1 else 0)
  | _ => none

example : ((List.range 256).map fun n => Opcode.mk (UInt8.ofNat n)).filterMap (fun op =>
    op.arithmetic?.map fun _ => op.name) =
    ["OP_1ADD", "OP_1SUB", "OP_NEGATE", "OP_ABS", "OP_NOT", "OP_0NOTEQUAL", "OP_ADD", "OP_SUB",
     "OP_BOOLAND", "OP_BOOLOR", "OP_NUMEQUAL", "OP_NUMNOTEQUAL", "OP_LESSTHAN", "OP_GREATERTHAN",
     "OP_LESSTHANOREQUAL", "OP_GREATERTHANOREQUAL", "OP_MIN", "OP_MAX", "OP_WITHIN"] := by
  decide +kernel

namespace Number

theorem ofBool_decide (p : Prop) [Decidable p] : ofBool (decide p) = if p then 1 else 0 := by
  simp only [ofBool, decide_eq_true_eq]

end Number

open Number

/-- A computation takes operands off the stack and pushes what a function gives for them, the top
one first. Otherwise it fails for the first one that is missing or too long. -/
structure Computes (act : StackM Failure Unit) (count : Nat) (f : List Int → Int) : Prop where
  pushes : ∀ operands rest : Stack, operands.length = count → (∀ x ∈ operands, x.length ≤ 4) →
    act (operands ++ rest) = .ok () (encode (f (operands.map value)) :: rest)
  missing : ∀ s : Stack, s.length < count → (∀ x ∈ s, x.length ≤ 4) →
    act s = .error (.stack .invalidOperation) []
  overlong : ∀ (front : Stack) (x : Bytes) (below : Stack), front.length < count →
    (∀ y ∈ front, y.length ≤ 4) → 4 < x.length →
    act (front ++ x :: below) = .error (.stack (.number .overflow)) below

namespace Computes

theorem push {act : StackM Failure Unit} {f : List Int → Int}
    (h : ∀ s, act s = .ok () (encode (f []) :: s)) : Computes act 0 f := by
  constructor
  · intro operands rest hlen _
    rw [List.length_eq_zero_iff.mp hlen]
    exact h rest
  · intro s hlen
    exact absurd hlen (Nat.not_lt_zero _)
  · intro front x below hlen
    exact absurd hlen (Nat.not_lt_zero _)

theorem pop {k : Int → StackM Failure Unit} {count : Nat} {f : List Int → Int}
    (h : ∀ n, Operand n → Computes (k n) count fun ns => f (n :: ns)) :
    Computes (liftM Stack.popNumber >>= k) (count + 1) f := by
  have hshort : ∀ (x : Bytes) (s : Stack), x.length ≤ 4 →
      (liftM Stack.popNumber >>= k) (x :: s) = k (value x) s := by
    intro x s hx
    refine bind_of_ok ?_
    rw [Stack.popNumber_cons, if_neg (Nat.not_lt.mpr hx)]
  constructor
  · intro operands rest hlen hall
    cases operands with
    | nil => simp at hlen
    | cons x operands =>
      obtain ⟨hx, hall⟩ := List.forall_mem_cons.mp hall
      rw [List.cons_append, hshort x _ hx, List.map_cons]
      exact (h _ (operand_value hx)).pushes operands rest (by simpa using hlen) hall
  · intro s hlen hall
    cases s with
    | nil => exact bind_of_error Stack.popNumber_nil
    | cons x s =>
      obtain ⟨hx, hall⟩ := List.forall_mem_cons.mp hall
      rw [hshort x s hx]
      exact (h _ (operand_value hx)).missing s (by simpa using hlen) hall
  · intro front x below hlen hall hx
    cases front with
    | nil =>
      refine bind_of_error ?_
      rw [List.nil_append, Stack.popNumber_cons, if_pos hx]
    | cons y front =>
      obtain ⟨hy, hall⟩ := List.forall_mem_cons.mp hall
      rw [List.cons_append, hshort y _ hy]
      exact (h _ (operand_value hy)).overlong front x below (by simpa using hlen) hall hx

end Computes

namespace StackInstruction

theorem computes_unary {op : UnaryOp} {f : Int → Int}
    (h : ∀ a, Operand a → op.apply a = .ok (f a)) :
    Computes (unary op).run 1 fun ns => ((Arithmetic.unary f).result ns.reverse).getD 0 := by
  refine .pop fun a ha => .push fun s => ?_
  rw [h a ha]
  rfl

theorem computes_binary {op : BinaryOp} {f : Int → Int → Int}
    (h : ∀ a b, Operand a → Operand b → op.apply a b = .ok (f a b)) :
    Computes (binary op).run 2 fun ns => ((Arithmetic.binary f).result ns.reverse).getD 0 := by
  refine .pop fun b hb => .pop fun a ha => .push fun s => ?_
  rw [h a b ha hb]
  rfl

theorem computes_within : Computes within.run 3 fun ns => ((Arithmetic.ternary
    fun a b c => if b ≤ a ∧ a < c then 1 else 0).result ns.reverse).getD 0 := by
  refine .pop fun c _ => .pop fun b _ => .pop fun a _ => .push fun s => ?_
  simp only [Stack.pushBool, Stack.pushNumber, Stack.push, Arithmetic.result, decide_eq_true_eq,
    List.reverse_cons, List.reverse_nil, List.nil_append, List.cons_append, Option.getD_some]

end StackInstruction

namespace Opcode

theorem computes_of_byte {op : Opcode} {n count : Nat} {i : StackInstruction} {f : List Int → Int}
    (hop : op.byte.toNat = n) (hi : (⟨UInt8.ofNat n⟩ : Opcode).instruction = .stack i)
    (h : Computes i.run count f) :
    ∃ i, op.instruction = .stack i ∧ Computes i.run count f := by
  have hbyte : op = ⟨UInt8.ofNat n⟩ := by rw [← hop, UInt8.ofNat_toNat]
  exact ⟨i, hbyte ▸ hi, h⟩

/-- Every arithmetic opcode has an instruction that computes what it stands for. -/
theorem exists_computes {op : Opcode} {a : Arithmetic} (h : op.arithmetic? = some a) :
    ∃ i, op.instruction = .stack i ∧
      Computes i.run a.arity fun ns => (a.result ns.reverse).getD 0 := by
  unfold arithmetic? at h
  split at h
  case h_19 hop =>
    cases h
    exact computes_of_byte hop rfl StackInstruction.computes_within
  case h_20 => cases h
  -- Predicates answer truth values, and everything that may leave its word is checked.
  all_goals
    next hop =>
      cases h
      refine computes_of_byte hop rfl ?_
      first
        | refine StackInstruction.computes_unary fun a ha => ?_
        | refine StackInstruction.computes_binary fun a b ha hb => ?_
      first
        | exact congrArg _ (ofBool_decide _)
        | rfl
        | refine checked_eq_ok ?_
          unfold Operand at *
          omega

end Opcode

namespace Arithmetic

theorem result_of_length (a : Arithmetic) {ns : List Int} (h : ns.length = a.arity) :
    ∃ r, a.result ns = some r := by
  unfold arity at h
  split at h
  next f =>
    obtain ⟨x, rfl⟩ := List.length_eq_one_iff.mp h
    exact ⟨_, rfl⟩
  next f =>
    obtain ⟨x, y, rfl⟩ := List.length_eq_two.mp h
    exact ⟨_, rfl⟩
  next f =>
    obtain ⟨x, y, z, rfl⟩ := List.length_eq_three.mp h
    exact ⟨_, rfl⟩

end Arithmetic

/-- No run of a script ends at a result that is too large. -/
theorem State.run_ne_overflow {ctx : Context} {script : Script} {n : Nat} {cause : NumberError}
    {stack : Stack} : (ofScript script).run ctx n ≠ some (.failed (.number cause) stack) := by
  intro h
  cases bounded_of_run_ofScript h with
  | failed _ hreason => exact hreason cause rfl

/-- Arithmetic opcodes compute exact integers. On operands of at most four bytes an opcode leaves
what is written for its result in their place. Otherwise it fails for the first operand from the top
that is missing or too long, and takes everything down to there off. No run of a script ever ends at
a result that is too large. -/
theorem Opcode.arithmetic_exact (ctx : Context) {op : Opcode} {a : Arithmetic}
    (hop : op.arithmetic? = some a) (s : State) :
    (∀ operands rest : Stack, s.stack = operands.reverse ++ rest → operands.length = a.arity →
      (∀ x ∈ operands, x.length ≤ 4) → ∃ r, a.result (operands.map Number.value) = some r ∧
        s.runCommand ctx (.op op) = .ok { s with stack := Number.encode r :: rest }) ∧
    (s.stack.length < a.arity → (∀ x ∈ s.stack, x.length ≤ 4) →
      s.runCommand ctx (.op op) = .error (.failed (.stack .invalidOperation) [])) ∧
    (∀ (front : Stack) (x : Bytes) (below : Stack), s.stack = front ++ x :: below →
      front.length < a.arity → (∀ y ∈ front, y.length ≤ 4) → 4 < x.length →
      s.runCommand ctx (.op op) = .error (.failed (.stack (.number .overflow)) below)) ∧
    ∀ (script : Script) (steps : Nat) (cause : NumberError) (stack : Stack),
      (State.ofScript script).run ctx steps ≠ some (.failed (.number cause) stack) := by
  obtain ⟨i, hi, hcomputes⟩ := exists_computes hop
  have hrun : s.runCommand ctx (.op op) = s.onStack i.run := by
    rw [State.runCommand, hi]
    rfl
  rw [hrun]
  unfold State.onStack
  refine ⟨?_, ?_, ?_, fun script steps cause stack => State.run_ne_overflow⟩
  · intro operands rest hst hlen hall
    have hcount : (operands.map value).length = a.arity := by simpa using hlen
    obtain ⟨r, hr⟩ := a.result_of_length hcount
    have hpush := hcomputes.pushes operands.reverse rest (by simpa using hlen) (by simpa using hall)
    refine ⟨r, hr, ?_⟩
    rw [hst, hpush, List.map_reverse, List.reverse_reverse, hr]
    rfl
  · intro hlen hall
    rw [hcomputes.missing s.stack hlen hall]
  · intro front x below hst hlen hall hx
    rw [hst, hcomputes.overlong front x below hlen hall hx]

/-- The greatest operand less the least one, which needs a fifth byte, and the same without the
second operand and with a fifth byte in front of it. -/
theorem Opcode.arithmetic_of_extremes :
    let ctx : Context := ⟨Secp256k1.scheme, FixedBytes.zero 32, [], none⟩
    let least : Bytes := [0xff, 0xff, 0xff, 0xff]
    let greatest : Bytes := [0xff, 0xff, 0xff, 0x7f]
    (⟨0x94⟩ : Opcode).arithmetic? = some (.binary fun a b => a - b) ∧
      (⟨[], [least, greatest, [5]], []⟩ : State).runCommand ctx (.op ⟨0x94⟩) =
        .ok ⟨[], [[0xfe, 0xff, 0xff, 0xff, 0x00], [5]], []⟩ ∧
      (⟨[], [least], []⟩ : State).runCommand ctx (.op ⟨0x94⟩) =
        .error (.failed (.stack .invalidOperation) []) ∧
      (⟨[], [least, 0 :: greatest, [5]], []⟩ : State).runCommand ctx (.op ⟨0x94⟩) =
        .error (.failed (.stack (.number .overflow)) [[5]]) := by
  intro ctx least greatest
  have hop : (⟨0x94⟩ : Opcode).arithmetic? = some (.binary fun a b => a - b) := rfl
  obtain ⟨hexact, _⟩ := arithmetic_exact ctx hop ⟨[], [least, greatest, [5]], []⟩
  obtain ⟨r, hr, hrun⟩ := hexact [greatest, least] [[5]] rfl rfl (by decide)
  obtain ⟨_, hmissing, _⟩ := arithmetic_exact ctx hop ⟨[], [least], []⟩
  obtain ⟨_, _, hoverlong, _⟩ := arithmetic_exact ctx hop ⟨[], [least, 0 :: greatest, [5]], []⟩
  have hencode : Number.encode r = [0xfe, 0xff, 0xff, 0xff, 0x00] := by
    cases hr
    decide +kernel
  rw [hencode] at hrun
  exact ⟨hop, hrun, hmissing (by decide) (by decide),
    hoverlong [least] (0 :: greatest) [[5]] rfl (by decide) (by decide) (by decide)⟩

end BitcoinSpend

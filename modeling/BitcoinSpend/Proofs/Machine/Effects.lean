import BitcoinSpend.Machine.Step
import BitcoinSpend.Proofs.Machine.Operands
import BitcoinSpend.Proofs.Script.Number

namespace BitcoinSpend

/-- Holds of everything. -/
abbrev Any {α : Type} (_ : α) : Prop :=
  True

/-- A failure for another reason than that the result of arithmetic is too large. -/
def Failure.NotResult (reason : Failure) : Prop :=
  ∀ cause, reason ≠ .number cause

/-- A property of elements that what is short enough to be pushed has, and with an element also the
number that tells its size. -/
structure ElementBound (P : Bytes → Prop) : Prop where
  of_length_le : ∀ x, x.length ≤ maxElementSize → P x
  of_size : ∀ x, P x → P (Number.encode x.length)

namespace ElementBound

theorem any : ElementBound Any :=
  ⟨fun _ _ => trivial, fun _ _ => trivial⟩

variable {P : Bytes → Prop} (hP : ElementBound P)

include hP

theorem of_encode {n : Int} (hn : Number.InWord n) : P (Number.encode n) :=
  hP.of_length_le _ (Nat.le_trans hn.length_encode_le (by decide))

theorem of_fixed {n : Nat} (b : FixedBytes n) (hn : n ≤ maxElementSize) : P b.bytes :=
  hP.of_length_le _ (by rwa [b.length_eq])

theorem of_digest (algorithm : HashAlgorithm) (x : Bytes) : P (algorithm.digest x) := by
  cases algorithm
  all_goals exact hP.of_fixed _ (by decide)

end ElementBound

/-- A stack of no more elements than there may be, which all have a property. -/
structure Stack.Within (P : Bytes → Prop) (s : Stack) : Prop where
  length_le : s.length ≤ maxStackSize
  all : ∀ x ∈ s, P x

/-- What may come of a stack. At most `n` elements are added, and none if it is an error. All
elements keep a property, and the value or the error is as stated. -/
def Comes {ε α : Type} (P : Bytes → Prop) (n : Int) (Q : α → Prop) (E : ε → Prop) (s : Stack) :
    EStateM.Result ε Stack α → Prop
  | .ok a t => (t.length : Int) ≤ s.length + n ∧ (∀ x ∈ t, P x) ∧ Q a
  | .error e t => t.length ≤ s.length ∧ (∀ x ∈ t, P x) ∧ E e

/-- What an action does to every stack that is within bounds. -/
def Effect {ε α : Type} (P : Bytes → Prop) (n : Int) (Q : α → Prop) (E : ε → Prop)
    (act : StackM ε α) : Prop :=
  ∀ s : Stack, s.Within P → Comes P n Q E s (act s)

namespace Effect

variable {ε α β : Type} {P : Bytes → Prop} {m n : Int} {Q : α → Prop} {R : β → Prop} {E : ε → Prop}

theorem mono {act : StackM ε α} (h : Effect P m Q E act) (hmn : m ≤ n) : Effect P n Q E act := by
  intro s hs
  have hact := h s hs
  cases hr : act s with
  | ok a t =>
    rw [hr] at hact
    obtain ⟨hlen, hall, ha⟩ := hact
    exact ⟨by omega, hall, ha⟩
  | error e t => rwa [hr] at hact

theorem pure {a : α} (ha : Q a) (hn : 0 ≤ n) : Effect P n Q E (pure a) :=
  fun _ hs => ⟨by omega, hs.all, ha⟩

theorem throw {e : ε} (he : E e) : Effect P n Q E (throw e) :=
  fun _ hs => ⟨Nat.le_refl _, hs.all, he⟩

/-- An action that adds nothing leaves a stack that is within bounds for the next one, which may add
as much more as the first one took. -/
theorem bind {x : StackM ε α} {f : α → StackM ε β} (hx : Effect P m Q E x)
    (hm : m ≤ 0) (hf : ∀ a, Q a → Effect P (n - m) R E (f a)) : Effect P n R E (x >>= f) := by
  intro s hs
  have hfirst := hx s hs
  have hle := hs.length_le
  cases hr : x s with
  | error e t =>
    rw [bind_of_error hr]
    rwa [hr] at hfirst
  | ok a t =>
    rw [hr] at hfirst
    obtain ⟨hlen, hall, ha⟩ := hfirst
    have hsecond := hf a ha t ⟨by omega, hall⟩
    rw [bind_of_ok hr]
    cases hr' : f a t with
    | ok b u =>
      rw [hr'] at hsecond
      obtain ⟨hlen', hall', hb⟩ := hsecond
      exact ⟨by omega, hall', hb⟩
    | error e u =>
      rw [hr'] at hsecond
      obtain ⟨hlen', hall', he⟩ := hsecond
      exact ⟨by omega, hall', he⟩

theorem ite {c : Prop} [Decidable c] {x y : StackM ε α} (hx : Effect P n Q E x)
    (hy : Effect P n Q E y) : Effect P n Q E (if c then x else y) := by
  split
  · exact hx
  · exact hy

/-- A check that goes on only if its condition does not hold. -/
theorem guarded {c : Prop} [Decidable c] {e : ε} {f : Unit → StackM ε α} (he : E e)
    (hf : Effect P n Q E (f ())) :
    Effect P n Q E (if c then MonadExcept.throw e >>= f else f ()) := by
  have hthrow : Effect P 0 Any E (MonadExcept.throw e : StackM ε Unit) := throw he
  exact ite (hthrow.bind (Int.le_refl 0) fun _ _ => hf.mono (by omega)) hf

theorem ofExcept {r : Except ε α} (hQ : ∀ a, r = .ok a → Q a) (hE : ∀ e, r = .error e → E e) :
    Effect P 0 Q E (ofExcept r) := by
  cases r with
  | ok a => exact pure (hQ a rfl) (Int.le_refl 0)
  | error e => exact throw (hE e rfl)

/-- Operations of the stack have failures of their own. -/
theorem lift {act : StackM StackError α} (h : Effect P n Q Any act) :
    Effect P n Q Failure.NotResult (liftM act : StackM Failure α) := by
  intro s hs
  have hact := h s hs
  simp only [liftM, monadLift, MonadLift.monadLift, EStateM.adaptExcept]
  cases hr : act s with
  | ok a t => rwa [hr] at hact
  | error e t =>
    rw [hr] at hact
    exact ⟨hact.1, hact.2.1, nofun⟩

end Effect

namespace Stack

variable {ε : Type} {P : Bytes → Prop} {E : ε → Prop} {n : Int}

theorem effect_rearrange {k : Nat} {f : Stack → Stack}
    (hlen : ∀ s, k ≤ s.length → ((f s).length : Int) ≤ s.length + n)
    (hmem : ∀ s, ∀ x ∈ f s, x ∈ s) : Effect P n Any Any (rearrange k f) := by
  intro s hs
  unfold rearrange
  split
  next => exact ⟨Nat.le_refl _, hs.all, trivial⟩
  next hk => exact ⟨hlen s (Nat.not_lt.mp hk), fun x hx => hs.all x (hmem s x hx), trivial⟩

theorem effect_dup (n : Nat) : Effect P n Any Any (dup n) := by
  refine effect_rearrange (fun s _ => ?_) fun s x hx => ?_
  · simp only [List.length_append, List.length_take]
    omega
  · rcases List.mem_append.mp hx with hx | hx
    · exact List.mem_of_mem_take hx
    · exact hx

theorem effect_top (i : Nat) : Effect P 0 P Any (top i) := by
  intro s hs
  unfold top
  split
  next x hx => exact ⟨by omega, hs.all, hs.all x (List.mem_of_getElem? hx)⟩
  next => exact ⟨Nat.le_refl _, hs.all, trivial⟩

theorem effect_push {x : Bytes} (hx : P x) (hn : 1 ≤ n) : Effect P n Any E (push x) :=
  fun _ hs => ⟨by rw [List.length_cons]; omega, List.forall_mem_cons.mpr ⟨hx, hs.all⟩, trivial⟩

theorem effect_pop : Effect P (-1) P Any pop := by
  intro s hs
  cases s with
  | nil => exact ⟨Nat.le_refl _, hs.all, trivial⟩
  | cons x s =>
    obtain ⟨hx, hall⟩ := List.forall_mem_cons.mp hs.all
    exact ⟨by simp only [List.length_cons]; omega, hall, hx⟩

theorem effect_remove (i : Nat) : Effect P (-1) P Any (remove i) := by
  intro s hs
  unfold remove
  split
  next x hx =>
    obtain ⟨hi, _⟩ := List.getElem?_eq_some_iff.mp hx
    refine ⟨?_, fun y hy => hs.all y (List.mem_of_mem_eraseIdx hy),
      hs.all x (List.mem_of_getElem? hx)⟩
    rw [List.length_eraseIdx_of_lt hi]
    omega
  next => exact ⟨Nat.le_refl _, hs.all, trivial⟩

theorem effect_popMany (k : Nat) : Effect P 0 Any Any (popMany k) := by
  induction k with
  | zero => exact .pure trivial (by decide)
  | succ k ih =>
    exact effect_pop.bind (by decide) fun _ _ =>
      ih.bind (by decide) fun _ _ => .pure trivial (by decide)

theorem effect_popNumber : Effect P (-1) Number.Operand Any popNumber :=
  effect_pop.bind (by decide) fun _ _ =>
    .ofExcept (fun _ h => Number.operand_of_decode (mapError_eq_ok_iff.mp h)) fun _ _ => trivial

theorem effect_peekNumber (size : Nat) : Effect P 0 Any Any (peekNumber size) :=
  (effect_top 0).bind (by decide) fun _ _ => .ofExcept (fun _ _ => trivial) fun _ _ => trivial

theorem effect_popBool : Effect P (-1) Any Any popBool :=
  effect_pop.bind (by decide) fun _ _ => .pure trivial (by decide)

theorem effect_peekBool : Effect P 0 Any Any peekBool :=
  (effect_top 0).bind (by decide) fun _ _ => .pure trivial (by decide)

variable (hP : ElementBound P)

include hP

theorem effect_pushNumber {i : Int} (hi : Number.InWord i) (hn : 1 ≤ n) :
    Effect P n Any E (pushNumber i) :=
  effect_push (hP.of_encode hi) hn

theorem effect_pushBool (b : Bool) (hn : 1 ≤ n) : Effect P n Any E (pushBool b) :=
  effect_pushNumber hP (Number.inWord_ofBool b) hn

end Stack

namespace StackInstruction

open Failure (NotResult)

variable {P : Bytes → Prop}

theorem effect_demandTrue (op : Opcode) : Effect P (-1) Any NotResult (demandTrue op) :=
  Stack.effect_popBool.lift.bind (by decide) fun _ _ =>
    .ite (.throw nofun) (.pure trivial (by decide))

theorem effect_popPosition : Effect P (-1) Any Any popPosition :=
  Stack.effect_popNumber.bind (by decide) fun _ _ => .guarded trivial (.pure trivial (by decide))

/-- A result that is there and is small is no failure. -/
theorem effect_result {r : Except NumberError Int} (h : ∃ n, r = .ok n ∧ Number.InWord n) :
    Effect P 0 Number.InWord NotResult (ofExcept (r.mapError .number) : StackM Failure Int) := by
  obtain ⟨n, rfl, hn⟩ := h
  exact .pure hn (Int.le_refl 0)

variable (hP : ElementBound P)

include hP

theorem effect_unaryNumber (op : UnaryOp) : Effect P 0 Any NotResult (unaryNumber op.apply) :=
  Stack.effect_popNumber.lift.bind (by decide) fun _ ha =>
    (effect_result (op.exists_apply ha)).bind (by decide) fun _ hr =>
      Stack.effect_pushNumber hP hr (by decide)

theorem effect_binaryNumber (op : BinaryOp) :
    Effect P (-1) Any NotResult (binaryNumber op.apply) :=
  Stack.effect_popNumber.lift.bind (by decide) fun _ hb =>
    Stack.effect_popNumber.lift.bind (by decide) fun _ ha =>
      (effect_result (op.exists_apply ha hb)).bind (by decide) fun _ hr =>
        Stack.effect_pushNumber hP hr (by decide)

theorem effect_compareTop : Effect P (-1) Any NotResult compareTop :=
  Stack.effect_pop.lift.bind (by decide) fun _ _ =>
    Stack.effect_pop.lift.bind (by decide) fun _ _ => Stack.effect_pushBool hP _ (by decide)

/-- The number of elements, which is within the limit of the stacks, is a short element too. -/
theorem effect_depth : Effect P 1 Any NotResult depth.run := by
  intro s hs
  have hmax : maxStackSize < 256 ^ Number.wordSize := by decide
  have hword : Number.InWord s.length := by
    have hle := hs.length_le
    show s.length < _
    omega
  exact Stack.effect_pushNumber hP hword (Int.le_refl 1) s hs

omit hP

/-- How many elements an instruction adds at most. -/
def copies : StackInstruction → Nat
  | dup n => n
  | dupBelow n => n
  | ifDup => 1
  | depth => 1
  | tuck => 1
  | size => 1
  | _ => 0

include hP

theorem effect_run (i : StackInstruction) : Effect P i.copies Any NotResult i.run := by
  cases i with
  | verify => exact (effect_demandTrue .verify).mono (by decide)
  | drop n =>
    refine .lift (Stack.effect_rearrange (fun s _ => ?_) fun s x hx => List.mem_of_mem_drop hx)
    simp only [List.length_drop, copies]
    omega
  | dup n => exact (Stack.effect_dup n).lift
  | dupBelow n =>
    refine .lift (Stack.effect_rearrange (fun s _ => ?_) fun s x hx => ?_)
    · simp only [List.length_append, List.length_take, List.length_drop, copies]
      omega
    · rcases List.mem_append.mp hx with hx | hx
      · exact List.mem_of_mem_drop (List.mem_of_mem_take hx)
      · exact hx
  | rot n | swap n =>
    refine .lift (Stack.effect_rearrange (fun s _ => ?_) fun s x hx => ?_)
    · simp only [List.length_append, List.length_take, List.length_drop, copies]
      omega
    · simp only [List.mem_append] at hx
      rcases hx with hx | hx | hx
      · exact List.mem_of_mem_drop (List.mem_of_mem_take hx)
      · exact List.mem_of_mem_take hx
      · exact List.mem_of_mem_drop hx
  | ifDup =>
    exact Stack.effect_peekBool.lift.bind (by decide) fun _ _ =>
      .ite (Stack.effect_dup 1).lift (.pure trivial (by decide))
  | depth => exact effect_depth hP
  | nip =>
    exact ((Stack.effect_remove 1).bind (by decide) fun _ _ => .pure trivial (by decide)).lift
  | pick =>
    exact effect_popPosition.lift.bind (by decide) fun i _ =>
      (Stack.effect_top i).lift.bind (by decide) fun _ hx => Stack.effect_push hx (by decide)
  | roll =>
    exact effect_popPosition.lift.bind (by decide) fun i _ =>
      (Stack.effect_remove i).lift.bind (by decide) fun _ hx => Stack.effect_push hx (by decide)
  | tuck =>
    refine .lift (Stack.effect_rearrange (fun s _ => ?_) fun s x hx => ?_)
    · split <;> simp only [List.length_cons, copies] <;> omega
    · split at hx
      · simp only [List.mem_cons] at hx ⊢
        tauto
      · exact hx
  | size =>
    exact (Stack.effect_top 0).lift.bind (by decide) fun x hx =>
      Stack.effect_push (hP.of_size x hx) (by decide)
  | equal => exact (effect_compareTop hP).mono (by decide)
  | equalVerify =>
    exact (effect_compareTop hP).bind (by decide) fun _ _ =>
      (effect_demandTrue .equalVerify).mono (by decide)
  | unary op => exact effect_unaryNumber hP op
  | binary op => exact (effect_binaryNumber hP op).mono (by simp [copies])
  | numEqualVerify =>
    exact (effect_binaryNumber hP .equal).bind (by decide) fun _ _ =>
      (effect_demandTrue .numEqualVerify).mono (by decide)
  | within =>
    exact Stack.effect_popNumber.lift.bind (by decide) fun _ _ =>
      Stack.effect_popNumber.lift.bind (by decide) fun _ _ =>
        Stack.effect_popNumber.lift.bind (by decide) fun _ _ =>
          Stack.effect_pushBool hP _ (by decide)
  | hash algorithm =>
    show Effect P 0 Any NotResult _
    exact Stack.effect_pop.lift.bind (by decide) fun x _ =>
      Stack.effect_push (hP.of_digest algorithm x) (by decide)

end StackInstruction

namespace Context

open Failure (NotResult)

variable {P : Bytes → Prop}

theorem effect_checkSig (ctx : Context) : Effect P (-2) Any NotResult ctx.checkSig :=
  Stack.effect_pop.lift.bind (by decide) fun _ _ =>
    Stack.effect_pop.lift.bind (by decide) fun _ _ => .pure trivial (by decide)

theorem effect_checkMultiSig (ctx : Context) : Effect P (-3) Any NotResult ctx.checkMultiSig :=
  Stack.effect_popNumber.lift.bind (by decide) fun _ _ => .guarded nofun
    ((Stack.effect_popMany _).lift.bind (by decide) fun _ _ =>
      Stack.effect_popNumber.lift.bind (by decide) fun _ _ => .guarded nofun
        ((Stack.effect_popMany _).lift.bind (by decide) fun _ _ =>
          Stack.effect_pop.lift.bind (by decide) fun _ _ => .pure trivial (by decide)))

end Context

namespace LockTime

open Failure (NotResult)

variable {P : Bytes → Prop}

theorem effect_peekDemand : Effect P 0 Any NotResult peekDemand :=
  (Stack.effect_peekNumber _).lift.bind (by decide) fun _ _ =>
    .guarded nofun (.pure trivial (by decide))

theorem effect_checkReached (own : LockTime) : Effect P 0 Any NotResult own.checkReached :=
  effect_peekDemand.bind (by decide) fun _ _ => .ite (.throw nofun) (.pure trivial (by decide))

theorem effect_checkAged (own : LockTime) : Effect P 0 Any NotResult own.checkAged :=
  effect_peekDemand.bind (by decide) fun _ _ =>
    .ite (.pure trivial (by decide)) (.ite (.throw nofun) (.pure trivial (by decide)))

end LockTime

namespace State

open Failure (NotResult)

variable {ctx : Context} {P : Bytes → Prop} {check : StackM Failure Bool} {n : Int}

theorem effect_pushAnswer (hP : ElementBound P) (h : Effect P n Any NotResult check) (hn : n ≤ 0) :
    Effect P 1 Any NotResult (pushAnswer check) :=
  h.bind hn fun b _ => Stack.effect_pushBool hP b (by omega)

theorem effect_demandAnswer (op : Opcode) (h : Effect P n Any NotResult check) (hn : n ≤ 0) :
    Effect P 0 Any NotResult (demandAnswer op check) :=
  h.bind hn fun _ _ => .ite (.throw nofun) (.pure trivial (by omega))

theorem effect_underLockTime {check : LockTime → StackM Failure Unit}
    (h : ∀ own, Effect P 0 Any NotResult (check own)) :
    Effect P 0 Any NotResult (underLockTime ctx check) := by
  unfold underLockTime
  split
  · exact .pure trivial (by decide)
  · exact h _

end State

end BitcoinSpend

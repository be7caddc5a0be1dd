import BitcoinSpend.Curve.Ecdsa
import BitcoinSpend.Proofs.Machine.Template

namespace BitcoinSpend

namespace LockTime

variable {own : LockTime} {lockTime : UInt32} {s t : Stack} {u : Unit}

/-- The demand that the top of the stack makes. -/
def Demanded (s : Stack) (demand : Int) : Prop :=
  ∃ x, s.head? = some x ∧ Number.decode false Number.lockTimeSize x = .ok demand ∧ 0 ≤ demand

theorem peekDemand_eq_ok_iff {demand : Int} :
    peekDemand s = .ok demand t ↔ Demanded s demand ∧ s = t := by
  have hpeek : ∀ n v, (Stack.peekNumber Number.lockTimeSize : StackM StackError Int) s = .ok n v ↔
      (∃ x, s.head? = some x ∧ Number.decode false Number.lockTimeSize x = .ok n) ∧ s = v := by
    intro n v
    simp only [Stack.peekNumber, Stack.ofNumber, bind_eq_ok_iff, Stack.top_eq_ok_iff,
      ofExcept_eq_ok_iff, mapError_eq_ok_iff, List.head?_eq_getElem?]
    constructor
    · intro hall
      obtain ⟨x, _, ⟨hx, rfl⟩, hdecode, rfl⟩ := hall
      exact ⟨⟨x, hx, hdecode⟩, rfl⟩
    · intro hall
      obtain ⟨⟨x, hx, hdecode⟩, rfl⟩ := hall
      exact ⟨x, s, ⟨hx, rfl⟩, hdecode, rfl⟩
  simp only [peekDemand, bind_eq_ok_iff, lift_eq_ok_iff, hpeek, Demanded]
  constructor
  · intro hall
    obtain ⟨n, _, ⟨⟨x, hx, hdecode⟩, rfl⟩, hpure⟩ := hall
    split at hpure
    next => simp at hpure
    next hneg =>
      obtain ⟨rfl, rfl⟩ := pure_eq_ok_iff.mp hpure
      exact ⟨⟨x, hx, hdecode, by omega⟩, rfl⟩
  · intro hall
    obtain ⟨⟨x, hx, hdecode, hneg⟩, rfl⟩ := hall
    refine ⟨demand, s, ⟨⟨x, hx, hdecode⟩, rfl⟩, ?_⟩
    rw [if_neg (by omega)]
    exact pure_eq_ok_iff.mpr ⟨rfl, rfl⟩

theorem checkReached_eq_ok_iff : own.checkReached s = .ok u t ↔
    (∃ demand, Demanded s demand ∧ own.reached demand = true) ∧ s = t := by
  simp only [checkReached, bind_eq_ok_iff, peekDemand_eq_ok_iff, throw_or_pure_eq_ok_iff]
  constructor
  · intro hall
    obtain ⟨demand, _, ⟨hdemand, rfl⟩, hreached, rfl⟩ := hall
    exact ⟨⟨demand, hdemand, by simpa using hreached⟩, rfl⟩
  · intro hall
    obtain ⟨⟨demand, hdemand, hreached⟩, rfl⟩ := hall
    exact ⟨demand, s, ⟨hdemand, rfl⟩, by simpa using hreached, rfl⟩

theorem checkAged_eq_ok_iff : own.checkAged s = .ok u t ↔
    (∃ demand, Demanded s demand ∧
      (demand.toNat.testBit disableBit = true ∨ own.aged demand.toNat = true)) ∧ s = t := by
  have hcheck : ∀ demand : Int, (do
      if demand.toNat.testBit disableBit then return
      if !own.aged demand.toNat then throw .unsatisfiedLockTime : StackM Failure Unit) s = .ok u t ↔
      (demand.toNat.testBit disableBit = true ∨ own.aged demand.toNat = true) ∧ s = t := by
    intro demand
    cases demand.toNat.testBit disableBit <;> cases own.aged demand.toNat <;> simp
  simp only [checkAged, bind_eq_ok_iff, peekDemand_eq_ok_iff]
  constructor
  · intro hall
    obtain ⟨demand, _, ⟨hdemand, rfl⟩, hchecked⟩ := hall
    obtain ⟨haged, rfl⟩ := (hcheck demand).mp hchecked
    exact ⟨⟨demand, hdemand, haged⟩, rfl⟩
  · intro hall
    obtain ⟨⟨demand, hdemand, haged⟩, rfl⟩ := hall
    exact ⟨demand, s, ⟨hdemand, rfl⟩, (hcheck demand).mpr ⟨haged, rfl⟩⟩

/-- No lock time, or a later one of the same kind with nothing else changed. -/
inductive Loosens (own : LockTime) : Option LockTime → Prop
  | none : Loosens own none
  | later {lockTime : UInt32} : own.lockTime ≤ lockTime →
    ((own.lockTime.toNat : Int) < threshold ↔ (lockTime.toNat : Int) < threshold) →
    Loosens own (some { own with lockTime })

theorem reached_iff {demand : Int} : own.reached demand = true ↔
    (demand < threshold ↔ (own.lockTime.toNat : Int) < threshold) ∧
      demand ≤ own.lockTime.toNat ∧ own.sequence ≠ finalSequence := by
  simp only [reached, Bool.and_eq_true, beq_iff_eq, decide_eq_decide, decide_eq_true_eq,
    bne_iff_ne, and_assoc]

theorem reached_later {demand : Int} (hle : own.lockTime ≤ lockTime)
    (hkind : (own.lockTime.toNat : Int) < threshold ↔ (lockTime.toNat : Int) < threshold)
    (h : own.reached demand = true) : ({ own with lockTime } : LockTime).reached demand = true := by
  have hle := UInt32.le_iff_toNat_le.mp hle
  obtain ⟨hsame, hdemand, hfinal⟩ := reached_iff.mp h
  refine reached_iff.mpr ⟨hsame.trans hkind, ?_, hfinal⟩
  show demand ≤ (lockTime.toNat : Int)
  omega

end LockTime

namespace Context

variable {ctx : Context} {lockTime : Option LockTime}

@[simp] theorem accepts_lockTime {sig key : Bytes} :
    ({ ctx with lockTime } : Context).accepts sig key = ctx.accepts sig key :=
  (accepts_eq { ctx with lockTime } sig key).trans (accepts_eq ctx sig key).symm

@[simp] theorem matchAll_lockTime {points : List ctx.scheme.Point} {sigs : List Bytes} :
    ({ ctx with lockTime } : Context).matchAll points sigs = ctx.matchAll points sigs := by
  induction sigs generalizing points with
  | nil => rfl
  | cons sig sigs ih =>
    rw [matchAll, matchAll]
    cases hs : ctx.parseSignature sig with
    | none => rw [show ({ ctx with lockTime } : Context).parseSignature sig = none from hs]
    | some s =>
      rw [show ({ ctx with lockTime } : Context).parseSignature sig = some s from hs]
      cases hfind : points.findIdx? fun p => ctx.scheme.verify p ctx.digest s with
      | none => simp only [hfind]
      | some i =>
        simp only [hfind]
        exact ih

@[simp] theorem checkSig_lockTime :
    ({ ctx with lockTime } : Context).checkSig = ctx.checkSig := by
  simp only [checkSig, accepts_lockTime]

@[simp] theorem checkMultiSig_lockTime :
    ({ ctx with lockTime } : Context).checkMultiSig = ctx.checkMultiSig := by
  simp only [checkMultiSig, matchAll_lockTime]

end Context

namespace State

variable {ctx : Context} {own : LockTime} {other : Option LockTime} {s t : State}

theorem underLockTime_checkReached_loosened (h : own.Loosens other) {st st' : Stack}
    (hst : underLockTime { ctx with lockTime := some own } LockTime.checkReached st = .ok () st') :
    underLockTime { ctx with lockTime := other } LockTime.checkReached st = .ok () st' := by
  obtain ⟨⟨demand, hdemand, hreached⟩, rfl⟩ := LockTime.checkReached_eq_ok_iff.mp hst
  cases h with
  | none => exact pure_eq_ok_iff.mpr ⟨rfl, rfl⟩
  | later hle hkind =>
    exact LockTime.checkReached_eq_ok_iff.mpr
      ⟨⟨demand, hdemand, LockTime.reached_later hle hkind hreached⟩, rfl⟩

/-- Ages are no matter of the lock time of the transaction. -/
theorem underLockTime_checkAged_loosened (h : own.Loosens other) {st st' : Stack}
    (hst : underLockTime { ctx with lockTime := some own } LockTime.checkAged st = .ok () st') :
    underLockTime { ctx with lockTime := other } LockTime.checkAged st = .ok () st' := by
  obtain ⟨hdemand, rfl⟩ := LockTime.checkAged_eq_ok_iff.mp hst
  cases h with
  | none => exact pure_eq_ok_iff.mpr ⟨rfl, rfl⟩
  | later => exact LockTime.checkAged_eq_ok_iff.mpr ⟨hdemand, rfl⟩

theorem onStack_of_imp {act act' : StackM Failure Unit}
    (hact : ∀ st st', act st = .ok () st' → act' st = .ok () st') (h : s.onStack act = .ok t) :
    s.onStack act' = .ok t := by
  unfold onStack at h ⊢
  split at h
  next st hst =>
    rw [hact _ _ hst]
    exact h
  next => cases h

theorem runInstruction_loosened (h : own.Loosens other) {i : Instruction}
    (hs : s.runInstruction { ctx with lockTime := some own } i = .ok t) :
    s.runInstruction { ctx with lockTime := other } i = .ok t := by
  cases i with
  | checkLockTime => exact onStack_of_imp (fun _ _ => underLockTime_checkReached_loosened h) hs
  | checkSequence => exact onStack_of_imp (fun _ _ => underLockTime_checkAged_loosened h) hs
  | checkSig | checkSigVerify | checkMultiSig | checkMultiSigVerify =>
    simpa only [runInstruction, Context.checkSig_lockTime, Context.checkMultiSig_lockTime] using hs
  | _ => exact hs

theorem step_loosened (h : own.Loosens other)
    (hs : s.step { ctx with lockTime := some own } = .ok t) :
    s.step { ctx with lockTime := other } = .ok t := by
  obtain ⟨queue, st, alt⟩ := s
  cases queue with
  | nil => cases hs
  | cons c q =>
    obtain ⟨hrun, hsize⟩ := step_eq_ok_iff.mp hs
    refine step_eq_ok_iff.mpr ⟨?_, hsize⟩
    cases c with
    | op code => exact runInstruction_loosened h hrun
    | data bs => exact hrun

theorem Accepts.loosened (h : own.Loosens other) {n : Nat}
    (ha : s.Accepts { ctx with lockTime := some own } n) :
    s.Accepts { ctx with lockTime := other } n := by
  induction n generalizing s with
  | zero =>
    obtain ⟨_, hrun, _⟩ := ha
    cases hrun
  | succ n ih =>
    obtain ⟨queue, st, alt⟩ := s
    cases queue with
    | nil => exact accepts_nil_iff.mpr (accepts_nil_iff.mp ha)
    | cons c q =>
      obtain ⟨m, t, hm, hs, ht⟩ := ha.step_cons
      obtain rfl : n = m := by omega
      exact .of_step (step_loosened h hs) (ih ht)

end State

namespace Context

theorem evaluate_loosened {ctx : Context} {own : LockTime} {other : Option LockTime}
    (h : own.Loosens other) {s : Script}
    (ha : { ctx with lockTime := some own }.evaluate s = .ok true) :
    { ctx with lockTime := other }.evaluate s = .ok true :=
  evaluate_eq_ok_true_iff.mpr ((evaluate_eq_ok_true_iff.mp ha).loosened h)

/-- A lock time only restricts: a script that is accepted under one is accepted without, and under
every later lock time of the same kind. -/
theorem lockTime_restricts {ctx : Context} {own : LockTime} {s : Script}
    (h : { ctx with lockTime := some own }.evaluate s = .ok true) :
    { ctx with lockTime := none }.evaluate s = .ok true ∧
      ∀ later : UInt32, own.lockTime ≤ later →
        ((own.lockTime.toNat : Int) < LockTime.threshold ↔
          (later.toNat : Int) < LockTime.threshold) →
        { ctx with lockTime := some { own with lockTime := later } }.evaluate s = .ok true :=
  ⟨evaluate_loosened .none h, fun _ hle hkind => evaluate_loosened (.later hle hkind) h⟩

end Context

/-- Demands a height of 500 and an age of ten blocks. -/
def Script.heldBack : Script :=
  [.data [0xf4, 0x01], .op ⟨0xb1⟩, .op ⟨0x75⟩, .data [10], .op ⟨0xb2⟩]

theorem Context.lockTime_restricts_heldBack :
    (⟨Secp256k1.scheme, FixedBytes.zero 32, [], some ⟨2, 500, 10⟩⟩ : Context).evaluate
        Script.heldBack = .ok true ∧
      (⟨Secp256k1.scheme, FixedBytes.zero 32, [], none⟩ : Context).evaluate
        Script.heldBack = .ok true ∧
      (⟨Secp256k1.scheme, FixedBytes.zero 32, [], some ⟨2, 499999999, 10⟩⟩ : Context).evaluate
        Script.heldBack = .ok true := by
  have h : (⟨Secp256k1.scheme, FixedBytes.zero 32, [], some ⟨2, 500, 10⟩⟩ : Context).evaluate
      Script.heldBack = .ok true := by decide +kernel
  obtain ⟨hnone, hlater⟩ :=
    @lockTime_restricts ⟨Secp256k1.scheme, FixedBytes.zero 32, [], none⟩ ⟨2, 500, 10⟩ _ h
  exact ⟨h, hnone, hlater 499999999 (by decide) (by decide)⟩

end BitcoinSpend

import BitcoinSpend.Curve.Ecdsa
import BitcoinSpend.Proofs.Machine.LockTime
import BitcoinSpend.Proofs.Spend.Verify

namespace BitcoinSpend

/-- The opcode that demands a height or a time. -/
def Opcode.checkLockTime : Opcode := ⟨0xb1⟩

/-- Demands a height or a time in front of a script. -/
def Script.lockedUntil (n : Bytes) (rest : Script) : Script :=
  .data n :: .op .checkLockTime :: rest

namespace Script

variable {n : Bytes} {rest : Script}

theorem Balanced.lockedUntil (h : Balanced rest) : Balanced (lockedUntil n rest) := by
  have hfront : Balanced [.data n, .op .checkLockTime] := balanced_of_endings_openings rfl rfl
  exact hfront.append h

theorem template_lockedUntil : (lockedUntil n rest).template = .nonstandard :=
  template_data_cons n _

end Script

/-- What a lock time must be for a demand that a script makes. -/
structure LockTime.Satisfies (own : LockTime) (n : Bytes) (demand : Int) : Prop where
  decode_eq : Number.decode false Number.lockTimeSize n = .ok demand
  nonneg : 0 ≤ demand
  le_lockTime : demand ≤ own.lockTime.toNat
  same_kind : demand < threshold ↔ (own.lockTime.toNat : Int) < threshold
  not_final : own.sequence ≠ finalSequence

theorem LockTime.Satisfies.length_le {own : LockTime} {n : Bytes} {demand : Int}
    (h : own.Satisfies n demand) : n.length ≤ Number.lockTimeSize := by
  have hdecode := h.decode_eq
  unfold Number.decode at hdecode
  split at hdecode
  next => simp at hdecode
  next hlen => omega

theorem State.Accepts.lockedUntil {ctx : Context} {own : LockTime} (hctx : ctx.lockTime = some own)
    {n : Bytes} (hn : n.length ≠ 20 ∧ n.length ≠ 32) {steps : Nat} {rest : Script} {st alt : Stack}
    (ha : (⟨Script.lockedUntil n rest, st, alt⟩ : State).Accepts ctx steps) :
    ∃ demand, own.Satisfies n demand := by
  have hq : Script.scriptHash? (.op .checkLockTime :: rest) = none :=
    Script.scriptHash?_cons_eq_none (by decide) rest
  obtain ⟨_, t, _, hstep, ht⟩ := ha.step_cons
  -- Only a demand of the length of a hash could complete a witness program and be taken away.
  rcases step_data_ok hq hstep with ⟨_, _, hadd, _⟩ | ⟨rfl, _⟩
  · have hlen := hadd.length
    omega
  obtain ⟨_, _, hcheck, _, _⟩ :=
    Accepts.op (underLockTime ctx LockTime.checkReached) (fun _ => rfl) ht
  simp only [underLockTime, hctx] at hcheck
  obtain ⟨⟨demand, ⟨x, hx, hdecode, hnonneg⟩, hreached⟩, _⟩ :=
    LockTime.checkReached_eq_ok_iff.mp hcheck
  obtain rfl : n = x := Option.some.inj hx
  obtain ⟨hkind, hle, hfinal⟩ := LockTime.reached_iff.mp hreached
  exact ⟨demand, hdecode, hnonneg, hle, hkind, hfinal⟩

theorem Context.satisfied_of_evaluate {ctx : Context} {own : LockTime}
    (hctx : ctx.lockTime = some own) (hw : ctx.witness = []) {unlocking rest : Script} {n : Bytes}
    (hn : n.length ≠ 20 ∧ n.length ≠ 32) (hrest : rest.Balanced)
    (hlast : (Script.lockedUntil n rest).getLast? ≠ some (.op .equal))
    (ha : ctx.evaluate (unlocking ++ Script.lockedUntil n rest) = .ok true) :
    ∃ demand, own.Satisfies n demand := by
  have hne : Script.lockedUntil n rest ≠ [] := by simp [Script.lockedUntil]
  have hsh := fun front hs => Script.scriptHash?_eq_none_of_getLast?
    (Script.getLast?_append_payToKeyHashes hne hlast front hs)
  obtain ⟨_, hs, st, alt, m, _, _, hlock⟩ := tail_reached hw hrest.lockedUntil hsh ha
  have hlock : (⟨Script.lockedUntil n (rest ++ hs.flatMap Script.payToKeyHash), st, alt⟩ :
      State).Accepts ctx m := hlock
  exact hlock.lockedUntil hctx hn

namespace Transaction

variable {tx : Transaction} {scheme : SignatureScheme} {fetch : Fetcher} {index : Nat} {i : Input}

/-- An output that is locked until a height or a time is not spent before, whatever unlocks it: the
demand can be read, is of the kind of the lock time of the transaction and no greater, and the input
is not final. -/
theorem lockedUntil_not_spent_early {n : Bytes} {rest : Script}
    (hn : n.length ≠ 20 ∧ n.length ≠ 32) (hrest : rest.Balanced)
    (hlast : (Script.lockedUntil n rest).getLast? ≠ some (.op .equal))
    (hs : tx.Spends fetch index i (Script.lockedUntil n rest)) {memo memo' : DigestMemo}
    (hv : tx.verifyInput scheme fetch index memo = .ok true memo') :
    n.length ≤ 5 ∧ ∃ v, Number.decode false Number.lockTimeSize n = .ok v ∧ 0 ≤ v ∧
      v ≤ tx.lockTime.toNat ∧ (v < 500000000 ↔ tx.lockTime.toNat < 500000000) ∧
      i.sequence ≠ 0xffffffff := by
  obtain ⟨d, hd, heval⟩ := (verifyInput_eq_ok_iff hs).mp hv
  obtain ⟨z, _, rfl, _⟩ := (selectDigest_plain (.inl Script.template_lockedUntil)).mp hd
  have hctx : (tx.context scheme i (.legacy z)).lockTime =
      some ⟨tx.version, tx.lockTime, i.sequence⟩ := rfl
  obtain ⟨v, h⟩ := Context.satisfied_of_evaluate hctx rfl hn hrest hlast heval
  refine ⟨h.length_le, v, h.decode_eq, h.nonneg, h.le_lockTime, h.same_kind.trans ?_, h.not_final⟩
  show (tx.lockTime.toNat : Int) < 500000000 ↔ _
  omega

def spendingAt (lockTime : UInt32) (script : Script) (witness : List Bytes) : Transaction :=
  make 1 [{ spendingInput script witness with sequence := 0 }] [⟨90000, [.op .pushOne]⟩] lockTime
    false

/-- A height of 500, which is written with a zero byte more than it needs. -/
theorem lockedUntil_spent_late :
    ∃ memo', (spendingAt 500 [.op .pushOne, .op .ifTrue, .op .zero, .op .endIf] []).verifyInput
        Secp256k1.scheme (holding (Script.lockedUntil [0xf4, 0x01, 0x00]
          [.op ⟨0x75⟩, .op .pushOne])) 0 {} = .ok true memo' ∧
      ([0xf4, 0x01, 0x00] : Bytes).length ≤ 5 ∧
      ∃ v, Number.decode false Number.lockTimeSize [0xf4, 0x01, 0x00] = .ok v ∧ 0 ≤ v ∧
        v ≤ (500 : UInt32).toNat ∧ (v < 500000000 ↔ (500 : UInt32).toNat < 500000000) ∧
        (0 : UInt32) ≠ 0xffffffff := by
  have hrun : ((spendingAt 500 [.op .pushOne, .op .ifTrue, .op .zero, .op .endIf] []).verifyInput
      Secp256k1.scheme (holding (Script.lockedUntil [0xf4, 0x01, 0x00]
        [.op ⟨0x75⟩, .op .pushOne])) 0).run' {} = some true := by decide +kernel
  obtain ⟨memo', hv⟩ := exists_verifyInput_of_run hrun
  exact ⟨memo', hv, lockedUntil_not_spent_early (by decide) (by decide) (by decide) ⟨rfl, rfl⟩ hv⟩

end Transaction

end BitcoinSpend

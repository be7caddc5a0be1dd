import BitcoinSpend.Curve.Ecdsa
import BitcoinSpend.Proofs.Spend.Amounts
import BitcoinSpend.Proofs.Spend.Verify
import Mathlib.Algebra.BigOperators.Group.Finset.Basic
import Mathlib.Algebra.Order.BigOperators.Group.List
import Mathlib.Algebra.Order.Ring.Int
import Mathlib.Tactic.Ring

namespace BitcoinSpend

/-- What an output holds, nothing if it cannot be had. -/
def OutPoint.held (p : OutPoint) (fetch : Fetcher) (testnet : Bool) : Int :=
  match p.output fetch testnet with
  | .ok o => o.amount.toInt
  | .error _ => 0

theorem OutPoint.held_eq (i : Input) (fetch : Fetcher) (testnet : Bool) :
    i.outPoint.held fetch testnet = (i.amount fetch testnet).toOption.elim 0 Int64.toInt := by
  unfold held Input.amount Input.spent
  cases i.outPoint.output fetch testnet <;> rfl

namespace Transaction

variable {tx : Transaction} {scheme : SignatureScheme} {fetch : Fetcher} {testnet : Bool}
  {memo memo' : DigestMemo}

def outPoints (tx : Transaction) : List OutPoint :=
  tx.inputs.map Input.outPoint

/-- What the outputs hold that the inputs spend, each counted once. -/
def spentOnce (tx : Transaction) (fetch : Fetcher) : Int :=
  ∑ p ∈ tx.outPoints.toFinset, p.held fetch tx.testnet

/-- What is counted again because several inputs name one output. -/
def countedAgain (tx : Transaction) (fetch : Fetcher) : Int :=
  ∑ p ∈ tx.outPoints.toFinset, (tx.outPoints.count p - 1) * p.held fetch tx.testnet

def created (tx : Transaction) : Int :=
  (tx.outputs.map fun o => o.amount.toInt).sum

/-- What the negative outputs pay in. -/
def paidIn (tx : Transaction) : Int :=
  (tx.outputs.map fun o => max 0 (-o.amount.toInt)).sum

theorem created_eq : tx.created = amountSum tx.createdAmounts := by
  simp [created, amountSum, createdAmounts, Function.comp_def]

theorem sum_held_eq {as : List Int64} (has : tx.spentAmounts fetch = as.map .ok) :
    (tx.outPoints.map fun p => p.held fetch tx.testnet).sum = amountSum as := by
  have hheld : (tx.outPoints.map fun p => p.held fetch tx.testnet) =
      (tx.spentAmounts fetch).map fun x => x.toOption.elim 0 Int64.toInt := by
    simp [outPoints, spentAmounts, OutPoint.held_eq]
  rw [hheld, has, List.map_map]
  rfl

theorem fee_eq_ok {fee : Int} (h : tx.fee fetch = .ok fee) :
    (∀ i ∈ tx.inputs, ∃ a, i.amount fetch tx.testnet = .ok a) ∧
      fee = (tx.outPoints.map fun p => p.held fetch tx.testnet).sum - tx.created := by
  obtain ⟨as, hpays, -, -, -, rfl⟩ := fee_eq_ok_iff.mp h
  have has := spentAmounts_eq_iff.mpr hpays
  rw [sum_held_eq has, created_eq]
  refine ⟨fun i hi => ?_, rfl⟩
  have hmem : i.amount fetch tx.testnet ∈ tx.spentAmounts fetch := List.mem_map_of_mem hi
  rw [has] at hmem
  obtain ⟨a, -, ha⟩ := List.mem_map.mp hmem
  exact ⟨a, ha.symm⟩

theorem verify_eq_ok_true_iff :
    tx.verify scheme fetch memo = .ok true memo' ↔
      (∃ fee, tx.fee fetch = .ok fee ∧ 0 ≤ fee) ∧
        tx.verifyInputs scheme fetch (List.range tx.inputs.length) memo = .ok true memo' := by
  unfold verify
  cases hf : tx.fee fetch with
  | error e => cases e <;> simp
  | ok fee =>
    by_cases hneg : fee < 0
    · simp [hneg]
    · simp [hneg, Int.not_lt.mp hneg]

theorem sum_held_outPoints (tx : Transaction) (fetch : Fetcher) :
    (tx.outPoints.map fun p => p.held fetch tx.testnet).sum =
      tx.spentOnce fetch + tx.countedAgain fetch := by
  rw [Finset.sum_list_map_count, spentOnce, countedAgain, ← Finset.sum_add_distrib]
  refine Finset.sum_congr rfl fun p _ => ?_
  rw [nsmul_eq_mul]
  ring

theorem countedAgain_eq_zero (h : tx.outPoints.Nodup) : tx.countedAgain fetch = 0 := by
  refine Finset.sum_eq_zero fun p hp => ?_
  rw [List.count_eq_one_of_mem h (List.mem_toFinset.mp hp)]
  simp

theorem paidIn_eq_zero (h : ∀ o ∈ tx.outputs, 0 ≤ o.amount.toInt) : tx.paidIn = 0 := by
  refine List.sum_eq_zero fun x hx => ?_
  obtain ⟨o, ho, rfl⟩ := List.mem_map.mp hx
  have := h o ho
  omega

theorem output_le_created {o : Output} (ho : o ∈ tx.outputs) :
    o.amount.toInt ≤ tx.created + tx.paidIn := by
  -- What was created and paid in is the sum with the negative amounts left out.
  have hsum : tx.created + tx.paidIn = (tx.outputs.map fun o => max o.amount.toInt 0).sum := by
    rw [created, paidIn, ← List.sum_map_add]
    refine congrArg List.sum (List.map_congr_left fun o _ => ?_)
    omega
  rw [hsum]
  have hle : max o.amount.toInt 0 ≤ (tx.outputs.map fun o => max o.amount.toInt 0).sum := by
    refine List.single_le_sum (fun x hx => ?_) _ (List.mem_map_of_mem ho)
    obtain ⟨_, _, rfl⟩ := List.mem_map.mp hx
    exact le_max_right _ _
  omega

/-- A verified transaction spends outputs that are there and creates no more than they hold, counted
as often as they are named. So no output exceeds the outputs spent by more than what is counted
again and what negative outputs pay in. -/
theorem verified_outputs_bounded (hv : tx.verify scheme fetch memo = .ok true memo') :
    (∀ i ∈ tx.inputs, ∃ a, i.amount fetch tx.testnet = .ok a) ∧
      tx.created ≤ tx.spentOnce fetch + tx.countedAgain fetch ∧
      (∀ o ∈ tx.outputs,
        o.amount.toInt ≤ tx.spentOnce fetch + tx.countedAgain fetch + tx.paidIn) ∧
      (tx.outPoints.Nodup → (∀ o ∈ tx.outputs, 0 ≤ o.amount.toInt) →
        ∀ o ∈ tx.outputs, o.amount.toInt ≤ tx.spentOnce fetch) := by
  obtain ⟨⟨fee, hfee, hpos⟩, _⟩ := verify_eq_ok_true_iff.mp hv
  obtain ⟨hall, heq⟩ := fee_eq_ok hfee
  rw [sum_held_outPoints] at heq
  have hcreated : tx.created ≤ tx.spentOnce fetch + tx.countedAgain fetch := by omega
  have hbound : ∀ o ∈ tx.outputs,
      o.amount.toInt ≤ tx.spentOnce fetch + tx.countedAgain fetch + tx.paidIn := by
    intro o ho
    have hle := output_le_created ho
    omega
  refine ⟨hall, hcreated, hbound, fun hnodup hnonneg o ho => ?_⟩
  have hle := hbound o ho
  rw [countedAgain_eq_zero hnodup, paidIn_eq_zero hnonneg] at hle
  omega

/-- A transaction whose inputs all name one output and push nothing. -/
def spendingTimes (times : Nat) (amounts : List Int64) : Transaction :=
  make 1 (List.replicate times (spendingInput [] [])) (amounts.map fun a => ⟨a, []⟩) 0 false

/-- Both bounds are reached, the first one by an output that two inputs name and that a negative
output adds to. -/
theorem verified_outputs_bounded_reached :
    ((∃ memo', (spendingTimes 2 [250000, -50000]).verify Secp256k1.scheme
          (holding [.op .pushOne]) {} = .ok true memo') ∧
        250000 ≤ (spendingTimes 2 [250000, -50000]).spentOnce (holding [.op .pushOne]) +
          (spendingTimes 2 [250000, -50000]).countedAgain (holding [.op .pushOne]) +
          (spendingTimes 2 [250000, -50000]).paidIn) ∧
      (∃ memo', (spendingTimes 1 [100000, 0]).verify Secp256k1.scheme (holding [.op .pushOne]) {} =
          .ok true memo') ∧
        100000 ≤ (spendingTimes 1 [100000, 0]).spentOnce (holding [.op .pushOne]) := by
  obtain ⟨memo₁, hv₁⟩ : ∃ memo', (spendingTimes 2 [250000, -50000]).verify Secp256k1.scheme
      (holding [.op .pushOne]) {} = .ok true memo' := exists_ok_of_run (by decide +kernel)
  obtain ⟨memo₂, hv₂⟩ : ∃ memo', (spendingTimes 1 [100000, 0]).verify Secp256k1.scheme
      (holding [.op .pushOne]) {} = .ok true memo' := exists_ok_of_run (by decide +kernel)
  have hbound := (verified_outputs_bounded hv₁).2.2.1 ⟨250000, []⟩ (by decide)
  have honce := (verified_outputs_bounded hv₂).2.2.2 (by decide) (by decide) ⟨100000, []⟩
    (by decide)
  exact ⟨⟨⟨memo₁, hv₁⟩, hbound⟩, ⟨memo₂, hv₂⟩, honce⟩

/-- An output of a verified transaction can exceed what is spent, by a negative output beside it or
by a second input that names the same output. -/
theorem verified_output_above_spent :
    ((∃ memo', (spendingTimes 1 [250000, -150000]).verify Secp256k1.scheme
          (holding [.op .pushOne]) {} = .ok true memo') ∧
        ∃ o ∈ (spendingTimes 1 [250000, -150000]).outputs,
          (spendingTimes 1 [250000, -150000]).spentOnce (holding [.op .pushOne]) <
            o.amount.toInt) ∧
      (∃ memo', (spendingTimes 2 [200000]).verify Secp256k1.scheme
          (holding [.op .pushOne]) {} = .ok true memo') ∧
        ∃ o ∈ (spendingTimes 2 [200000]).outputs,
          (spendingTimes 2 [200000]).spentOnce (holding [.op .pushOne]) < o.amount.toInt := by
  refine ⟨⟨exists_ok_of_run ?_, ?_⟩, exists_ok_of_run ?_, ?_⟩
  all_goals decide +kernel

end Transaction

end BitcoinSpend

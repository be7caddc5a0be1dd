import BitcoinSpend.Curve.Ecdsa
import BitcoinSpend.Proofs.Spend.Amounts
import BitcoinSpend.Proofs.Spend.Verify
import BitcoinSpend.Proofs.Transaction.Memo

namespace BitcoinSpend

/-- What a computation answers from a memo. -/
def DigestM.answerFrom {α : Type} (memo : DigestMemo) (m : DigestM α) : Except TxError α :=
  match m memo with
  | .ok a _ => .ok a
  | .error e _ => .error e

theorem Yields.answerFrom_eq {I J : DigestMemo → Prop} {memo : DigestMemo} {α : Type}
    {m : DigestM α} {r : Except TxError α} (h : Yields I J m r) (hmemo : I memo) :
    m.answerFrom memo = r := by
  obtain ⟨_, _, hrun⟩ := h memo hmemo
  unfold DigestM.answerFrom
  rw [hrun]
  cases r <;> rfl

theorem DigestM.Steady.answersWith {tx : Transaction} {memo : DigestMemo} {α : Type} {m : DigestM α}
    (h : Steady tx (memo.found tx) m) : AnswersWith tx (memo.found tx) m (m.answerFrom memo) := by
  obtain ⟨r, hr⟩ := h
  rwa [hr.answerFrom_eq rfl]

namespace Transaction

open DigestM

variable {tx : Transaction} {scheme : SignatureScheme} {fetch : Fetcher} {memo : DigestMemo}

/-- The inputs behind one that verifies are judged as if no hash had been kept for it. -/
theorem answerFrom_verifyInputs_cons (index : Nat) (rest : List Nat) :
    (tx.verifyInputs scheme fetch (index :: rest)).answerFrom memo =
      (tx.verifyInput scheme fetch index).answerFrom memo >>= fun valid =>
        if valid then (tx.verifyInputs scheme fetch rest).answerFrom memo else .ok false := by
  refine ((steady_verifyInput index).answersWith.bind fun valid => ?_).answerFrom_eq rfl
  cases valid with
  | true => exact (steady_verifyInputs rest).answersWith
  | false => exact .ofExcept (.ok false)

/-- Inputs are answered by the first that does not verify. -/
theorem answerFrom_verifyInputs (indices : List Nat) :
    (tx.verifyInputs scheme fetch indices).answerFrom memo =
      ((indices.map fun index => (tx.verifyInput scheme fetch index).answerFrom memo).find?
        fun r => r ≠ .ok true).getD (.ok true) := by
  induction indices with
  | nil => rfl
  | cons index rest ih =>
    rw [answerFrom_verifyInputs_cons, List.map_cons]
    cases (tx.verifyInput scheme fetch index).answerFrom memo with
    | error e => rfl
    | ok valid =>
      cases valid with
      | true => exact ih
      | false => rfl

theorem answerFrom_verify : (tx.verify scheme fetch).answerFrom memo =
    match tx.fee fetch with
    | .error .amountOverflow => .ok false
    | .error e => .error e
    | .ok fee =>
      if fee < 0 then .ok false
      else (tx.verifyInputs scheme fetch (List.range tx.inputs.length)).answerFrom memo := by
  unfold verify
  cases tx.fee fetch with
  | error e => cases e <;> rfl
  | ok fee =>
    by_cases hneg : fee < 0
    · simp only [hneg, if_true]
      rfl
    · simp only [hneg, if_false]

/-- The fee is the exact difference of what is spent and what is created. It is there just if all
out points stand for outputs and all sums on the way and the difference are amounts. Otherwise it
fails at the first input whose output is missing, for the cause of that, or leads out of the range,
or because the created amounts or the difference do. A transaction whose fee is negative or out of
the range does not verify, one whose fee fails otherwise cannot be judged, and every other one is
answered by the first of its inputs that does not verify. -/
theorem fee_and_verify_exact (tx : Transaction) (scheme : SignatureScheme) (fetch : Fetcher)
    (memo : DigestMemo) :
    (∀ fee, tx.fee fetch = .ok fee ↔
      ∃ as, Pays fetch tx.testnet tx.inputs as ∧ SumsFit 0 as ∧ SumsFit 0 tx.createdAmounts ∧
        IsAmount (amountSum as - amountSum tx.createdAmounts) ∧
          fee = amountSum as - amountSum tx.createdAmounts) ∧
    (∀ e, tx.fee fetch = .error e ↔
      tx.StopsAtInput fetch e ∨
        ∃ as, Pays fetch tx.testnet tx.inputs as ∧ SumsFit 0 as ∧
          ¬(SumsFit 0 tx.createdAmounts ∧
            IsAmount (amountSum as - amountSum tx.createdAmounts)) ∧ e = .amountOverflow) ∧
    (tx.verify scheme fetch).answerFrom memo =
      match tx.fee fetch with
      | .error .amountOverflow => .ok false
      | .error e => .error e
      | .ok fee =>
        if fee < 0 then .ok false
        else (((List.range tx.inputs.length).map fun index =>
          (tx.verifyInput scheme fetch index).answerFrom memo).find?
            fun r => r ≠ .ok true).getD (.ok true) := by
  refine ⟨fun fee => fee_eq_ok_iff, fun e => fee_eq_error_iff, ?_⟩
  rw [answerFrom_verify, answerFrom_verifyInputs]

/-- A transaction whose first input names an output that is there, and whose second one names an
output behind it. -/
def namingMissing : Transaction :=
  make 1 [spendingInput [] [], { spendingInput [] [] with outPoint := ⟨⟨.zero 32⟩, 7⟩ }] [] 0 false

/-- One transaction pays a fee and verifies, and one names an output that is missing, so that it can
neither pay nor be judged. -/
theorem fee_paid_and_output_missing :
    (spending [] []).fee (holding [.op .pushOne]) = .ok 10000 ∧
    ((spending [] []).verify Secp256k1.scheme (holding [.op .pushOne])).answerFrom {} = .ok true ∧
    namingMissing.fee (holding [.op .pushOne]) = .error (.outputIndex ⟨.zero 32⟩ 7 1) ∧
    (namingMissing.verify Secp256k1.scheme (holding [.op .pushOne])).answerFrom {} =
      .error (.outputIndex ⟨.zero 32⟩ 7 1) := by
  obtain ⟨hfee, -, hverify⟩ :=
    fee_and_verify_exact (spending [] []) Secp256k1.scheme (holding [.op .pushOne]) {}
  obtain ⟨-, hfails, hjudge⟩ :=
    fee_and_verify_exact namingMissing Secp256k1.scheme (holding [.op .pushOne]) {}
  have hpays : Pays (holding [.op .pushOne]) false [spendingInput [] []] [100000] :=
    .cons ⟨_, .found rfl rfl, rfl⟩ .nil
  have hpaid := (hfee 10000).mpr ⟨[100000], hpays, by decide, by decide, by decide, by decide⟩
  have hfetch : holding [.op .pushOne] ⟨.zero 32⟩ false =
      .ok (make 1 [] [⟨100000, [.op .pushOne]⟩] 0 false) := rfl
  have hnone := OutPoint.Resolves.outOfRange (o := ⟨⟨.zero 32⟩, 7⟩) hfetch (by decide)
  have hstops : namingMissing.StopsAtInput (holding [.op .pushOne]) (.outputIndex ⟨.zero 32⟩ 7 1) :=
    ⟨_, _, [], [100000], rfl, hpays, by decide, .inl hnone⟩
  have hmissing := (hfails _).mpr (.inl hstops)
  rw [hpaid] at hverify
  rw [hmissing] at hjudge
  refine ⟨hpaid, hverify.trans ?_, hmissing, hjudge⟩
  decide +kernel

end Transaction

end BitcoinSpend

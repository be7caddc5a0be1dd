import BitcoinSpend.Proofs.Machine.Success
import BitcoinSpend.Transaction.Spent

namespace BitcoinSpend

variable {o : OutPoint} {i : Input} {fetch : Fetcher} {testnet : Bool}

/-- What an out point stands for: the output at its index, in the transaction that is fetched under
its id. It is missing if the transaction is, and then for the same cause, or if that has too few
outputs. -/
inductive OutPoint.Resolves (o : OutPoint) (fetch : Fetcher) (testnet : Bool) :
    Except TxError Output → Prop
  | found {source : Transaction} {output : Output} (hfetch : fetch o.tx testnet = .ok source)
      (houtput : source.outputs[o.index.toNat]? = some output) :
      Resolves o fetch testnet (.ok output)
  | notFetched {cause : FetchError} (hfetch : fetch o.tx testnet = .error cause) :
      Resolves o fetch testnet (.error (.fetch cause))
  | outOfRange {source : Transaction} (hfetch : fetch o.tx testnet = .ok source)
      (houtput : source.outputs.length ≤ o.index.toNat) :
      Resolves o fetch testnet (.error (.outputIndex o.tx o.index source.outputs.length))

theorem OutPoint.output_of_resolves {r : Except TxError Output} (h : o.Resolves fetch testnet r) :
    o.output fetch testnet = r := by
  unfold output source
  cases h with
  | found hfetch houtput =>
    rw [hfetch]
    simp only [Except.mapError, bind, Except.bind, houtput]
    rfl
  | notFetched hfetch =>
    rw [hfetch]
    rfl
  | outOfRange hfetch houtput =>
    rw [hfetch]
    simp only [Except.mapError, bind, Except.bind, List.getElem?_eq_none houtput]
    rfl

theorem OutPoint.resolves_output (o : OutPoint) (fetch : Fetcher) (testnet : Bool) :
    o.Resolves fetch testnet (o.output fetch testnet) := by
  cases hfetch : fetch o.tx testnet with
  | error cause =>
    have h := Resolves.notFetched hfetch
    rwa [← output_of_resolves h] at h
  | ok source =>
    cases houtput : source.outputs[o.index.toNat]? with
    | some output =>
      have h := Resolves.found hfetch houtput
      rwa [← output_of_resolves h] at h
    | none =>
      have h := Resolves.outOfRange hfetch (List.getElem?_eq_none_iff.mp houtput)
      rwa [← output_of_resolves h] at h

theorem OutPoint.resolves_iff {r : Except TxError Output} :
    o.Resolves fetch testnet r ↔ o.output fetch testnet = r := by
  constructor
  · exact output_of_resolves
  · rintro rfl
    exact o.resolves_output fetch testnet

namespace Input

theorem amount_eq_ok_iff {amount : Int64} : i.amount fetch testnet = .ok amount ↔
    ∃ spent, i.spent fetch testnet = .ok spent ∧ spent.amount = amount := by
  simp only [Input.amount, Except.bind_eq_ok_iff, Except.pure_eq_ok_iff]

theorem amount_eq_error_iff {e : TxError} :
    i.amount fetch testnet = .error e ↔ i.spent fetch testnet = .error e := by
  unfold amount
  cases i.spent fetch testnet <;> simp

theorem locking_eq_ok_iff {script : Script} : i.locking fetch testnet = .ok script ↔
    ∃ spent, i.spent fetch testnet = .ok spent ∧ spent.script = script := by
  simp only [Input.locking, Except.bind_eq_ok_iff, Except.pure_eq_ok_iff]

theorem locking_eq_map (i : Input) (fetch : Fetcher) (testnet : Bool) :
    i.locking fetch testnet = Output.script <$> i.outPoint.output fetch testnet := by
  unfold locking spent
  cases i.outPoint.output fetch testnet <;> rfl

end Input

end BitcoinSpend

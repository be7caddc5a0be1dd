import BitcoinSpend.Proofs.Transaction.Spent
import Mathlib.Algebra.BigOperators.Group.Finset.Basic
import Mathlib.Algebra.Order.BigOperators.Group.List
import Mathlib.Algebra.Order.Ring.Int
import Mathlib.Tactic.Ring

namespace BitcoinSpend

/-- What fits a signed word of 64 bits. -/
def IsAmount (n : Int) : Prop :=
  Int64.minValue.toInt ≤ n ∧ n ≤ Int64.maxValue.toInt

instance (n : Int) : Decidable (IsAmount n) :=
  inferInstanceAs (Decidable (_ ∧ _))

theorem isAmount_zero : IsAmount 0 := by
  decide

theorem checkedAmount_of_isAmount {n : Int} (h : IsAmount n) : checkedAmount n = .ok n :=
  if_pos h

theorem checkedAmount_of_not_isAmount {n : Int} (h : ¬IsAmount n) :
    checkedAmount n = .error .amountOverflow :=
  if_neg h

theorem checkedAmount_eq_ok_iff {n m : Int} : checkedAmount n = .ok m ↔ IsAmount n ∧ m = n := by
  by_cases h : IsAmount n
  · simp [checkedAmount_of_isAmount h, h, eq_comm]
  · simp [checkedAmount_of_not_isAmount h, h]

theorem checkedAmount_eq_error_iff {n : Int} {e : TxError} :
    checkedAmount n = .error e ↔ ¬IsAmount n ∧ e = .amountOverflow := by
  by_cases h : IsAmount n
  · simp [checkedAmount_of_isAmount h, h]
  · simp [checkedAmount_of_not_isAmount h, h, eq_comm]

/-- The exact sum of amounts. -/
def amountSum (as : List Int64) : Int :=
  (as.map Int64.toInt).sum

@[simp] theorem amountSum_nil : amountSum [] = 0 := rfl

@[simp] theorem amountSum_cons (a : Int64) (as : List Int64) :
    amountSum (a :: as) = a.toInt + amountSum as := by
  simp [amountSum]

theorem amountSum_append_singleton (as : List Int64) (a : Int64) :
    amountSum (as ++ [a]) = amountSum as + a.toInt := by
  simp [amountSum]

/-- From a total on, every sum on the way is an amount. -/
def SumsFit (total : Int) (as : List Int64) : Prop :=
  ∀ front, front <+: as → IsAmount (total + amountSum front)

instance (total : Int) (as : List Int64) : Decidable (SumsFit total as) :=
  decidable_of_iff (∀ front ∈ as.inits, IsAmount (total + amountSum front)) (by
    simp only [SumsFit, List.mem_inits])

theorem sumsFit_nil_iff {total : Int} : SumsFit total [] ↔ IsAmount total := by
  simp [SumsFit]

theorem SumsFit.isAmount {total : Int} {as : List Int64} (h : SumsFit total as) :
    IsAmount total := by
  simpa using h [] List.nil_prefix

theorem sumsFit_cons_iff {total : Int} {a : Int64} {as : List Int64} :
    SumsFit total (a :: as) ↔ IsAmount total ∧ SumsFit (total + a.toInt) as := by
  constructor
  · intro h
    refine ⟨SumsFit.isAmount h, fun front hfront => ?_⟩
    have hsum := h (a :: front) (List.cons_prefix_cons.mpr ⟨rfl, hfront⟩)
    rwa [amountSum_cons, ← Int.add_assoc] at hsum
  · intro h front hfront
    obtain ⟨htotal, hrest⟩ := h
    rcases List.prefix_cons_iff.mp hfront with rfl | ⟨rest, rfl, hprefix⟩
    · simpa using htotal
    · rw [amountSum_cons, ← Int.add_assoc]
      exact hrest rest hprefix

/-- Adds an amount to a total once it is there. The sum has to be an amount. -/
def addAmount (total : Int) (x : Except TxError Int64) : Except TxError Int := do
  checkedAmount (total + (← x).toInt)

def addAmounts (total : Int) (xs : List (Except TxError Int64)) : Except TxError Int :=
  xs.foldlM addAmount total

section

variable {total sum : Int} {a : Int64} {xs : List (Except TxError Int64)} {e : TxError}

theorem addAmounts_cons_of_isAmount (h : IsAmount (total + a.toInt)) :
    addAmounts total (.ok a :: xs) = addAmounts (total + a.toInt) xs := by
  simp [addAmounts, addAmount, checkedAmount_of_isAmount h, bind, Except.bind]

theorem addAmounts_cons_of_not_isAmount (h : ¬IsAmount (total + a.toInt)) :
    addAmounts total (.ok a :: xs) = .error .amountOverflow := by
  simp [addAmounts, addAmount, checkedAmount_of_not_isAmount h, bind, Except.bind]

theorem addAmounts_eq_ok_iff (htotal : IsAmount total) :
    addAmounts total xs = .ok sum ↔
      ∃ as, xs = as.map .ok ∧ SumsFit total as ∧ sum = total + amountSum as := by
  induction xs generalizing total with
  | nil =>
    constructor
    · intro h
      cases h
      exact ⟨[], rfl, sumsFit_nil_iff.mpr htotal, by simp⟩
    · intro h
      obtain ⟨as, has, -, rfl⟩ := h
      obtain rfl := List.map_eq_nil_iff.mp has.symm
      simp [addAmounts, pure, Except.pure]
  | cons x xs ih =>
    constructor
    · intro h
      cases x with
      | error e => cases h
      | ok a =>
        by_cases hfits : IsAmount (total + a.toInt)
        · rw [addAmounts_cons_of_isAmount hfits, ih hfits] at h
          obtain ⟨as, rfl, hsums, rfl⟩ := h
          exact ⟨a :: as, rfl, sumsFit_cons_iff.mpr ⟨htotal, hsums⟩, by
            rw [amountSum_cons, Int.add_assoc]⟩
        · rw [addAmounts_cons_of_not_isAmount hfits] at h
          cases h
    · intro h
      obtain ⟨as, has, hsums, rfl⟩ := h
      obtain ⟨a, as, rfl, rfl, rfl⟩ := List.map_eq_cons_iff.mp has.symm
      obtain ⟨-, hsums⟩ := sumsFit_cons_iff.mp hsums
      have hfits : IsAmount (total + a.toInt) := hsums.isAmount
      rw [addAmounts_cons_of_isAmount hfits, ih hfits]
      exact ⟨as, rfl, hsums, by rw [amountSum_cons, Int.add_assoc]⟩

/-- What stops a sum is the first amount that is missing or leads out of the range. -/
def StopsAt (total : Int) (xs : List (Except TxError Int64)) (e : TxError) : Prop :=
  ∃ as x rest, xs = as.map .ok ++ x :: rest ∧ SumsFit total as ∧
    (x = .error e ∨ ∃ a, x = .ok a ∧ ¬IsAmount (total + amountSum (as ++ [a])) ∧
      e = .amountOverflow)

theorem stopsAt_of_addAmounts (htotal : IsAmount total) (h : addAmounts total xs = .error e) :
    StopsAt total xs e := by
  induction xs generalizing total with
  | nil => cases h
  | cons x xs ih =>
    cases x with
    | error e' =>
      cases h
      exact ⟨[], _, xs, rfl, sumsFit_nil_iff.mpr htotal, .inl rfl⟩
    | ok a =>
      by_cases hfits : IsAmount (total + a.toInt)
      · rw [addAmounts_cons_of_isAmount hfits] at h
        obtain ⟨as, x, rest, rfl, hsums, hx⟩ := ih hfits h
        refine ⟨a :: as, x, rest, rfl, sumsFit_cons_iff.mpr ⟨htotal, hsums⟩, ?_⟩
        simpa only [List.cons_append, amountSum_cons, Int.add_assoc] using hx
      · rw [addAmounts_cons_of_not_isAmount hfits] at h
        cases h
        exact ⟨[], _, xs, rfl, sumsFit_nil_iff.mpr htotal, .inr ⟨a, rfl, by simpa using hfits, rfl⟩⟩

theorem addAmounts_eq_error_iff (htotal : IsAmount total) :
    addAmounts total xs = .error e ↔ StopsAt total xs e := by
  refine ⟨stopsAt_of_addAmounts htotal, fun h => ?_⟩
  obtain ⟨as, x, rest, rfl, hsums, hx⟩ := h
  -- The amounts in front are there and add up, so the sum comes to the one that stops it.
  have hfront := (addAmounts_eq_ok_iff htotal).mpr ⟨as, rfl, hsums, rfl⟩
  unfold addAmounts at hfront ⊢
  rw [List.foldlM_append, hfront]
  rcases hx with rfl | ⟨a, rfl, hexceeds, rfl⟩
  · rfl
  · rw [amountSum_append_singleton, ← Int.add_assoc] at hexceeds
    exact addAmounts_cons_of_not_isAmount hexceeds

-- All three add up to an amount, but the first two do not.
example : addAmounts 0 [.ok Int64.maxValue, .ok 1, .ok (-1)] = .error .amountOverflow := by
  decide

theorem addAmounts_map_ok_eq_ok_iff {as : List Int64} (htotal : IsAmount total) :
    addAmounts total (as.map .ok) = .ok sum ↔
      SumsFit total as ∧ sum = total + amountSum as := by
  rw [addAmounts_eq_ok_iff htotal]
  constructor
  · intro h
    obtain ⟨as', has, h⟩ := h
    rwa [List.map_injective_iff.mpr (fun _ _ => Except.ok.inj) has]
  · intro h
    exact ⟨as, rfl, h⟩

theorem eq_amountOverflow_of_addAmounts_map_ok {as : List Int64} (htotal : IsAmount total)
    (h : addAmounts total (as.map .ok) = .error e) : e = .amountOverflow := by
  obtain ⟨front, x, rest, has, -, rfl | ⟨_, _, _, rfl⟩⟩ := stopsAt_of_addAmounts htotal h
  · have hmem : Except.error e ∈ as.map .ok := has ▸ by simp
    simp at hmem
  · rfl

theorem addAmounts_map_ok_eq_error_iff {as : List Int64} (htotal : IsAmount total) :
    addAmounts total (as.map .ok) = .error e ↔ ¬SumsFit total as ∧ e = .amountOverflow := by
  cases hrun : addAmounts total (as.map .ok) with
  | ok sum =>
    have hsums := ((addAmounts_map_ok_eq_ok_iff htotal).mp hrun).1
    simp [hsums]
  | error e' =>
    obtain rfl := eq_amountOverflow_of_addAmounts_map_ok htotal hrun
    have hexceeds : ¬SumsFit total as := by
      intro hsums
      rw [(addAmounts_map_ok_eq_ok_iff htotal).mpr ⟨hsums, rfl⟩] at hrun
      cases hrun
    simp [hexceeds, eq_comm]

end

namespace Transaction

variable {tx : Transaction} {fetch : Fetcher}

/-- The amounts that a transaction spends, as far as they are there. -/
def spentAmounts (tx : Transaction) (fetch : Fetcher) : List (Except TxError Int64) :=
  tx.inputs.map fun i => i.amount fetch tx.testnet

def createdAmounts (tx : Transaction) : List Int64 :=
  tx.outputs.map Output.amount

/-- The inputs pay some amounts, one each: the outputs that they name are there and hold them. -/
def Pays (fetch : Fetcher) (testnet : Bool) (is : List Input) (as : List Int64) : Prop :=
  List.Forall₂ (fun i a => ∃ o, i.outPoint.Resolves fetch testnet (.ok o) ∧ o.amount = a) is as

/-- What stops the sum of the spent amounts is the first input whose output is missing or holds an
amount that leads out of the range. -/
def StopsAtInput (tx : Transaction) (fetch : Fetcher) (e : TxError) : Prop :=
  ∃ front i rest as, tx.inputs = front ++ i :: rest ∧ Pays fetch tx.testnet front as ∧
    SumsFit 0 as ∧ (i.outPoint.Resolves fetch tx.testnet (.error e) ∨
      ∃ o, i.outPoint.Resolves fetch tx.testnet (.ok o) ∧
        ¬IsAmount (amountSum (as ++ [o.amount])) ∧ e = .amountOverflow)

theorem map_amount_eq_iff {is : List Input} {as : List Int64} {testnet : Bool} :
    (is.map fun i => i.amount fetch testnet) = as.map .ok ↔ Pays fetch testnet is as := by
  rw [← List.forall₂_eq_eq_eq, List.forall₂_map_left_iff, List.forall₂_map_right_iff]
  simp only [Pays, Input.amount_eq_ok_iff, Input.spent, OutPoint.resolves_iff]

theorem stopsAt_spentAmounts_iff {e : TxError} :
    StopsAt 0 (tx.spentAmounts fetch) e ↔ tx.StopsAtInput fetch e := by
  have hstops : ∀ (i : Input) (as : List Int64),
      (i.amount fetch tx.testnet = .error e ∨ ∃ a, i.amount fetch tx.testnet = .ok a ∧
        ¬IsAmount (0 + amountSum (as ++ [a])) ∧ e = .amountOverflow) ↔
      (i.outPoint.Resolves fetch tx.testnet (.error e) ∨
        ∃ o, i.outPoint.Resolves fetch tx.testnet (.ok o) ∧
          ¬IsAmount (amountSum (as ++ [o.amount])) ∧ e = .amountOverflow) := fun i as => by
    simp [Input.amount_eq_error_iff, Input.amount_eq_ok_iff, Input.spent, OutPoint.resolves_iff,
      ← exists_and_right]
  constructor
  · rintro ⟨as, x, rest, hsplit, hsums, hx⟩
    obtain ⟨front, others, hinputs, hfront, hothers⟩ := List.map_eq_append_iff.mp hsplit
    obtain ⟨i, others, rfl, rfl, -⟩ := List.map_eq_cons_iff.mp hothers
    exact ⟨front, i, others, as, hinputs, map_amount_eq_iff.mp hfront, hsums, (hstops i as).mp hx⟩
  · rintro ⟨front, i, rest, as, hinputs, hpays, hsums, hi⟩
    refine ⟨as, _, rest.map fun i => i.amount fetch tx.testnet, ?_, hsums, (hstops i as).mpr hi⟩
    rw [spentAmounts, hinputs, List.map_append, map_amount_eq_iff.mpr hpays, List.map_cons]

theorem addSpent_eq (fetch : Fetcher) (testnet : Bool) (total : Int) (is : List Input) :
    addSpent fetch testnet total is =
      addAmounts total (is.map fun i => i.amount fetch testnet) := by
  induction is generalizing total with
  | nil => rfl
  | cons i is ih =>
    simp only [addSpent, ih]
    simp [addAmounts, addAmount]

theorem addOutputs_eq (total : Int) (os : List Output) :
    addOutputs total os = addAmounts total ((os.map Output.amount).map .ok) := by
  induction os generalizing total with
  | nil => rfl
  | cons o os ih =>
    simp only [addOutputs, ih]
    simp [addAmounts, addAmount, bind, Except.bind]

theorem fee_eq : tx.fee fetch = (do
    let spent ← addAmounts 0 (tx.spentAmounts fetch)
    let held ← addAmounts 0 (tx.createdAmounts.map .ok)
    checkedAmount (spent - held)) := by
  unfold fee
  rw [addSpent_eq, addOutputs_eq]
  rfl

theorem spentAmounts_eq_iff {as : List Int64} :
    tx.spentAmounts fetch = as.map .ok ↔ Pays fetch tx.testnet tx.inputs as :=
  map_amount_eq_iff

theorem fee_eq_ok_iff {fee : Int} :
    tx.fee fetch = .ok fee ↔
      ∃ as, Pays fetch tx.testnet tx.inputs as ∧ SumsFit 0 as ∧ SumsFit 0 tx.createdAmounts ∧
        IsAmount (amountSum as - amountSum tx.createdAmounts) ∧
          fee = amountSum as - amountSum tx.createdAmounts := by
  simp only [fee_eq, Except.bind_eq_ok_iff, addAmounts_map_ok_eq_ok_iff isAmount_zero]
  simp only [addAmounts_eq_ok_iff isAmount_zero, checkedAmount_eq_ok_iff, spentAmounts_eq_iff,
    Int.zero_add]
  constructor
  · intro h
    obtain ⟨_, ⟨as, hpays, hspent, rfl⟩, _, ⟨hcreated, rfl⟩, hfee⟩ := h
    exact ⟨as, hpays, hspent, hcreated, hfee⟩
  · intro h
    obtain ⟨as, hpays, hspent, hcreated, hfee⟩ := h
    exact ⟨_, ⟨as, hpays, hspent, rfl⟩, _, ⟨hcreated, rfl⟩, hfee⟩

theorem fee_eq_error_iff {e : TxError} :
    tx.fee fetch = .error e ↔
      tx.StopsAtInput fetch e ∨
        ∃ as, Pays fetch tx.testnet tx.inputs as ∧ SumsFit 0 as ∧
          ¬(SumsFit 0 tx.createdAmounts ∧
            IsAmount (amountSum as - amountSum tx.createdAmounts)) ∧ e = .amountOverflow := by
  simp only [fee_eq, Except.bind_eq_error_iff, addAmounts_map_ok_eq_ok_iff isAmount_zero,
    addAmounts_map_ok_eq_error_iff isAmount_zero]
  simp only [addAmounts_eq_ok_iff isAmount_zero, addAmounts_eq_error_iff isAmount_zero,
    checkedAmount_eq_error_iff, stopsAt_spentAmounts_iff, spentAmounts_eq_iff, Int.zero_add]
  refine or_congr_right ⟨fun h => ?_, fun h => ?_⟩
  · obtain ⟨_, ⟨as, hpays, hspent, rfl⟩, ⟨hcreated, rfl⟩ | ⟨_, ⟨-, rfl⟩, hfee, rfl⟩⟩ := h
    · exact ⟨as, hpays, hspent, fun h => hcreated h.1, rfl⟩
    · exact ⟨as, hpays, hspent, fun h => hfee h.2, rfl⟩
  · obtain ⟨as, hpays, hspent, hexceeds, rfl⟩ := h
    refine ⟨_, ⟨as, hpays, hspent, rfl⟩, ?_⟩
    by_cases hcreated : SumsFit 0 tx.createdAmounts
    · exact .inr ⟨_, ⟨hcreated, rfl⟩, fun hfee => hexceeds ⟨hcreated, hfee⟩, rfl⟩
    · exact .inl ⟨hcreated, rfl⟩

end Transaction

end BitcoinSpend

import BitcoinSpend.Proofs.Bytes.Reading
import Mathlib.Algebra.Ring.Nat

namespace BitcoinSpend

/-- A round of a loop: where it started, and where it stopped, if it was completed. -/
structure Round (Loop : Type) where
  loop : Loop
  start : Nat
  stop : Option Nat
deriving DecidableEq

namespace Round

variable {Loop : Type}

/-- The number of rounds that were completed. -/
def completed (rounds : List (Round Loop)) : Nat :=
  rounds.countP fun x => x.stop.isSome

/-- The number of rounds of one loop that were completed. -/
def completedOf [DecidableEq Loop] (loop : Loop) (rounds : List (Round Loop)) : Nat :=
  rounds.countP fun x => x.loop = loop ∧ x.stop.isSome

/-- The loops of the rounds that were not, the innermost one first. -/
def unfinished (rounds : List (Round Loop)) : List Loop :=
  rounds.filterMap fun x => if x.stop.isNone then some x.loop else none

theorem completed_append (xs ys : List (Round Loop)) :
    completed (xs ++ ys) = completed xs + completed ys :=
  List.countP_append

@[simp] theorem completedOf_nil [DecidableEq Loop] (loop : Loop) :
    completedOf loop ([] : List (Round Loop)) = 0 := rfl

@[simp] theorem completedOf_append [DecidableEq Loop] (loop : Loop) (xs ys : List (Round Loop)) :
    completedOf loop (xs ++ ys) = completedOf loop xs + completedOf loop ys :=
  List.countP_append

@[simp] theorem completedOf_singleton [DecidableEq Loop] (loop loop' : Loop) (start stop : Nat) :
    completedOf loop [⟨loop', start, some stop⟩] = if loop' = loop then 1 else 0 := by
  simp [completedOf, List.countP_cons]

theorem unfinished_append (xs ys : List (Round Loop)) :
    unfinished (xs ++ ys) = unfinished xs ++ unfinished ys :=
  List.filterMap_append

theorem length_eq (rounds : List (Round Loop)) :
    rounds.length = completed rounds + (unfinished rounds).length := by
  induction rounds with
  | nil => rfl
  | cons x xs ih =>
    obtain ⟨loop, start, stop⟩ := x
    cases stop with
    | none =>
      simp only [completed, unfinished, List.countP_cons, List.filterMap_cons] at ih ⊢
      simp [ih]
      omega
    | some stop =>
      simp only [completed, unfinished, List.countP_cons, List.filterMap_cons] at ih ⊢
      simp [ih]
      omega

end Round

/-- A parser that tells its rounds. -/
def Traced (Loop ε α : Type) : Type :=
  Reader → Except ε (α × Reader) × List (Round Loop)

namespace Traced

variable {Loop ε α β : Type}

instance : Monad (Traced Loop ε) where
  pure a r := (.ok (a, r), [])
  bind t f r :=
    match t r with
    | (.error e, xs) => (.error e, xs)
    | (.ok (a, s), xs) =>
      let (result, ys) := f a s
      (result, xs ++ ys)

/-- A parser whose rounds are of no interest. -/
instance : MonadLift (Parser ε) (Traced Loop ε) where
  monadLift p r := (p r, [])

/-- One round of a loop. -/
def round (loop : Loop) (t : Traced Loop ε α) : Traced Loop ε α := fun r =>
  match t r with
  | (.error e, xs) => (.error e, xs ++ [⟨loop, r.position, none⟩])
  | (.ok (a, s), xs) => (.ok (a, s), xs ++ [⟨loop, r.position, some s.position⟩])

def replicate (loop : Loop) (t : Traced Loop ε α) : Nat → Traced Loop ε (List α)
  | 0 => pure []
  | n + 1 => do
    let x ← round loop t
    let xs ← replicate loop t n
    return x :: xs

def forEach (loop : Loop) (t : α → Traced Loop ε β) : List α → Traced Loop ε (List β)
  | [] => pure []
  | x :: xs => do
    let y ← round loop (t x)
    let ys ← forEach loop t xs
    return y :: ys

theorem replicate_eq_forEach (loop : Loop) (t : Traced Loop ε α) (n : Nat) :
    replicate loop t n = forEach loop (fun _ => t) (List.replicate n ()) := by
  induction n with
  | zero => rfl
  | succ n ih => rw [replicate, ih, List.replicate_succ, forEach]

/-- Tracing a parser leaves what it reads as it is. -/
def Traces (t : Traced Loop ε α) (p : Parser ε α) : Prop :=
  ∀ r, (t r).1 = p r

namespace Traces

theorem lift (p : Parser ε α) : Traces (liftM p : Traced Loop ε α) p := fun _ => rfl

theorem pure (a : α) : Traces (pure a : Traced Loop ε α) (pure a) := fun _ => rfl

theorem bind {t : Traced Loop ε α} {p : Parser ε α} {f : α → Traced Loop ε β}
    {g : α → Parser ε β} (h : t.Traces p) (hf : ∀ a, (f a).Traces (g a)) :
    (t >>= f).Traces (p >>= g) := by
  intro r
  show _ = (p r >>= fun x => g x.1 x.2)
  rw [← h r]
  simp only [Bind.bind]
  cases t r with
  | mk result xs =>
    cases result with
    | error e => rfl
    | ok x =>
      obtain ⟨a, s⟩ := x
      exact hf a s

theorem ite {c : Prop} [Decidable c] {t u : Traced Loop ε α} {p q : Parser ε α}
    (h : t.Traces p) (h' : u.Traces q) : (if c then t else u).Traces (if c then p else q) := by
  split
  · exact h
  · exact h'

theorem round {t : Traced Loop ε α} {p : Parser ε α} (loop : Loop) (h : t.Traces p) :
    (round loop t).Traces p := by
  intro r
  rw [← h r]
  unfold Traced.round
  split
  next heq => rw [heq]
  next heq => rw [heq]

theorem replicate {t : Traced Loop ε α} {p : Parser ε α} (loop : Loop) (h : t.Traces p) (n : Nat) :
    (replicate loop t n).Traces (p.replicate n) := by
  induction n with
  | zero => exact pure []
  | succ n ih => exact (h.round loop).bind fun x => ih.bind fun xs => pure (x :: xs)

theorem forEach {t : α → Traced Loop ε β} {p : α → Parser ε β} (loop : Loop)
    (h : ∀ x, (t x).Traces (p x)) (xs : List α) :
    (forEach loop t xs).Traces (Parser.forEach p xs) := by
  induction xs with
  | nil => exact pure []
  | cons x xs ih => exact ((h x).round loop).bind fun y => ih.bind fun ys => pure (y :: ys)

end Traces

end Traced

/-- A parser that succeeds takes so many bytes or more from the front of the data. -/
def Parser.Takes {ε α : Type} (gain : Nat) (p : Parser ε α) : Prop :=
  ∀ r a r', p r = .ok (a, r') → r.position + gain ≤ r'.position ∧
    r'.position + r'.rest.length = r.position + r.rest.length

theorem Parser.Reads.takes {ε α : Type} {p : Parser ε α} {Text : Bytes → α → Prop} {gain : Nat}
    (hp : p.Reads Text) (h : ∀ bs a, Text bs a → gain ≤ bs.length) : p.Takes gain := by
  intro r a r' hr
  obtain ⟨bs, hbs, hrest, hposition⟩ := (hp r a r').mp hr
  have hlen := h bs a hbs
  rw [hrest, List.length_append]
  omega

namespace Round

variable {Loop ε α : Type}

/-- Every completed round took a byte of the data in front of a reader. -/
def Advance (r : Reader) (xs : List (Round Loop)) : Prop :=
  ∀ x ∈ xs, ∀ stop, x.stop = some stop → x.start < stop ∧ stop ≤ r.position + r.rest.length

/-- An outcome with rounds that took a byte each. A success took so many bytes more and completed
all rounds. A failure left at most one round of each of some loops. -/
inductive Pace (loops : List Loop) (gain : Nat) (r : Reader) :
    Except ε (α × Reader) × List (Round Loop) → Prop
  | ok {a : α} {r' : Reader} {xs : List (Round Loop)} : Advance r xs → unfinished xs = [] →
      r.position + completed xs + gain ≤ r'.position →
      r'.position + r'.rest.length = r.position + r.rest.length →
      Pace loops gain r (.ok (a, r'), xs)
  | error {e : ε} {xs : List (Round Loop)} : Advance r xs → completed xs ≤ r.rest.length →
      (unfinished xs).Sublist loops → Pace loops gain r (.error e, xs)

theorem Advance.nil (r : Reader) : Advance r ([] : List (Round Loop)) := by
  intro x hx
  cases hx

theorem Advance.append {r : Reader} {xs ys : List (Round Loop)} (h : Advance r xs)
    (h' : Advance r ys) : Advance r (xs ++ ys) := by
  intro x hx
  rcases List.mem_append.mp hx with hx | hx
  · exact h x hx
  · exact h' x hx

end Round

namespace Traced

open Round

variable {Loop ε α β : Type} {loops : List Loop} {gain : Nat}

/-- All outcomes of a traced parser keep pace. -/
def Paced (loops : List Loop) (gain : Nat) (t : Traced Loop ε α) : Prop :=
  ∀ r, Pace loops gain r (t r)

namespace Paced

theorem mono {t : Traced Loop ε α} {loops' : List Loop} {less : Nat} (h : Paced loops gain t)
    (hsub : loops.Sublist loops') (hle : less ≤ gain) : Paced loops' less t := by
  intro r
  have hr := h r
  generalize t r = outcome at hr
  cases hr with
  | ok hadvance hdone hgain hsame => exact .ok hadvance hdone (by omega) hsame
  | error hadvance hle hunfinished => exact .error hadvance hle (hunfinished.trans hsub)

theorem lift {p : Parser ε α} (h : p.Takes gain) :
    Paced loops gain (liftM p : Traced Loop ε α) := by
  intro r
  show Pace loops gain r (p r, [])
  cases hp : p r with
  | error e => exact .error (.nil r) (Nat.zero_le _) (List.nil_sublist _)
  | ok x =>
    obtain ⟨a, r'⟩ := x
    obtain ⟨hgain, hsame⟩ := h r a r' hp
    exact .ok (.nil r) rfl hgain hsame

theorem pure (a : α) : Paced loops 0 (pure a : Traced Loop ε α) :=
  fun r => .ok (.nil r) rfl (Nat.le_refl _) rfl

theorem bind {t : Traced Loop ε α} {f : α → Traced Loop ε β} {more : Nat}
    (h : Paced loops gain t) (hf : ∀ a, Paced loops more (f a)) :
    Paced loops (gain + more) (t >>= f) := by
  intro r
  have hr := h r
  simp only [Bind.bind]
  generalize t r = outcome at hr
  cases hr with
  | error hadvance hle hunfinished => exact .error hadvance hle hunfinished
  | @ok a s xs hadvance hdone hgain hsame =>
    have hs := hf a s
    show Pace loops (gain + more) r ((f a s).1, xs ++ (f a s).2)
    generalize f a s = outcome' at hs
    cases hs with
    | ok hadvance' hdone' hgain' hsame' =>
      refine .ok (hadvance.append ?_) ?_ ?_ ?_
      · intro x hx
        rw [← hsame]
        exact hadvance' x hx
      · rw [unfinished_append, hdone, hdone', List.append_nil]
      · simp only [completed_append]
        omega
      · rw [hsame', hsame]
    | error hadvance' hle' hunfinished' =>
      refine .error (hadvance.append ?_) ?_ ?_
      · intro x hx
        rw [← hsame]
        exact hadvance' x hx
      · simp only [completed_append]
        omega
      · rw [unfinished_append, hdone]
        exact hunfinished'

theorem ite {c : Prop} [Decidable c] {t u : Traced Loop ε α} (h : Paced loops gain t)
    (h' : Paced loops gain u) : Paced loops gain (if c then t else u) := by
  split
  · exact h
  · exact h'

/-- A round uses up one of the bytes that its body takes. -/
theorem round {t : Traced Loop ε α} (loop : Loop) (h : Paced loops (gain + 1) t) :
    Paced (loops ++ [loop]) gain (round loop t) := by
  intro r
  have hr := h r
  unfold Traced.round
  generalize t r = outcome at hr
  cases hr with
  | @ok a s xs hadvance hdone hgain hsame =>
    refine .ok (hadvance.append ?_) ?_ ?_ hsame
    · intro x hx stop hstop
      obtain rfl := List.mem_singleton.mp hx
      cases hstop
      exact ⟨by show r.position < s.position; omega, by omega⟩
    · rw [unfinished_append, hdone]
      rfl
    · rw [completed_append]
      show r.position + (completed xs + 1) + gain ≤ s.position
      omega
  | error hadvance hle hunfinished =>
    refine .error (hadvance.append ?_) ?_ ?_
    · intro x hx stop hstop
      obtain rfl := List.mem_singleton.mp hx
      cases hstop
    · rw [completed_append]
      exact hle
    · rw [unfinished_append]
      exact hunfinished.append (List.Sublist.refl _)

theorem forEach {t : α → Traced Loop ε β} (loop : Loop) (h : ∀ x, Paced loops 1 (t x))
    (xs : List α) : Paced (loops ++ [loop]) 0 (forEach loop t xs) := by
  induction xs with
  | nil => exact pure []
  | cons x xs ih => exact ((h x).round loop).bind fun y => ih.bind fun ys => pure (y :: ys)

/-- However many rounds are asked for, those that are completed take a byte each. -/
theorem replicate {t : Traced Loop ε α} (loop : Loop) (h : Paced loops 1 t) (n : Nat) :
    Paced (loops ++ [loop]) 0 (replicate loop t n) := by
  rw [replicate_eq_forEach]
  exact forEach loop (fun _ => h) _

end Paced

/-- A success and its rounds meet a condition. -/
def Tells (Q : α → List (Round Loop) → Prop) (t : Traced Loop ε α) : Prop :=
  ∀ r a r', (t r).1 = .ok (a, r') → Q a (t r).2

namespace Tells

variable {t : Traced Loop ε α} {P Q : α → List (Round Loop) → Prop}

theorem mono (h : Tells P t) (hQ : ∀ a xs, P a xs → Q a xs) : Tells Q t :=
  fun r a r' hr => hQ a _ (h r a r' hr)

theorem lift {p : Parser ε α} (h : ∀ a, Q a []) : Tells Q (liftM p : Traced Loop ε α) :=
  fun _ a _ _ => h a

theorem pure {a : α} (h : Q a []) : Tells Q (pure a : Traced Loop ε α) := by
  intro r b r' hr
  cases hr
  exact h

theorem bind {f : α → Traced Loop ε β} {R : β → List (Round Loop) → Prop} (h : Tells P t)
    (hf : ∀ a xs, P a xs → Tells (fun b ys => R b (xs ++ ys)) (f a)) : Tells R (t >>= f) := by
  intro r b r' hr
  have hP := h r
  simp only [Bind.bind] at hr ⊢
  generalize t r = outcome at hP hr
  obtain ⟨_ | ⟨a, s⟩, xs⟩ := outcome
  · cases hr
  · exact hf a xs (hP a s rfl) s b r' hr

/-- A parser that is lifted tells no rounds. -/
theorem lift_bind {p : Parser ε α} {f : α → Traced Loop ε β} {R : β → List (Round Loop) → Prop}
    (h : ∀ a, Tells R (f a)) : Tells R (liftM p >>= f) := by
  refine bind (lift (Q := fun _ xs => xs = []) fun _ => rfl) ?_
  rintro a _ rfl
  exact h a

theorem round (loop : Loop) (h : Tells P t)
    (hQ : ∀ a xs start stop, P a xs → Q a (xs ++ [⟨loop, start, some stop⟩])) :
    Tells Q (round loop t) := by
  intro r a r' hr
  have hP := h r
  unfold Traced.round at hr ⊢
  generalize t r = outcome at hP hr
  obtain ⟨_ | ⟨b, s⟩, xs⟩ := outcome
  · cases hr
  · cases hr
    exact hQ _ xs _ _ (hP _ _ rfl)

variable [DecidableEq Loop]

/-- A loop over items completes a round for each, besides the rounds that its body completes. -/
theorem forEach {t : α → Traced Loop ε β} {number : β → Loop → Nat} (loop : Loop)
    (h : ∀ x, Tells (fun y rounds => ∀ l, completedOf l rounds = number y l) (t x)) (xs : List α) :
    Tells (fun ys rounds => ys.length = xs.length ∧ ∀ l, completedOf l rounds =
      (ys.map fun y => number y l).sum + if loop = l then ys.length else 0)
      (forEach loop t xs) := by
  induction xs with
  | nil => exact pure ⟨rfl, fun l => by simp⟩
  | cons x xs ih =>
    have hround : Tells (fun y rounds => ∀ l, completedOf l rounds =
        number y l + if loop = l then 1 else 0) (Traced.round loop (t x)) :=
      (h x).round loop fun y rounds start stop hy l => by simp [hy]
    refine hround.bind fun y rounds hy => ih.bind fun ys rounds' hys => pure ⟨?_, fun l => ?_⟩
    · simp [hys.1]
    · simp only [List.append_nil, completedOf_append, hy, hys.2, List.map_cons, List.sum_cons,
        List.length_cons]
      split <;> omega

theorem replicate {number : α → Loop → Nat} (loop : Loop)
    (h : Tells (fun a rounds => ∀ l, completedOf l rounds = number a l) t) (n : Nat) :
    Tells (fun as rounds => ∀ l, completedOf l rounds =
      (as.map fun a => number a l).sum + if loop = l then as.length else 0)
      (replicate loop t n) := by
  rw [replicate_eq_forEach]
  exact (forEach loop (fun _ : Unit => h) _).mono fun as rounds hall => hall.2

end Tells

end Traced

end BitcoinSpend

import BitcoinSpend.Proofs.Machine.Operands

namespace BitcoinSpend

namespace Stack

variable {α : Type} {n : Nat} {s : Stack}

/-- An operation that needs `n` elements: with so many it succeeds, with just the answer and the
stack that a relation gives, and with fewer it fails and leaves the stack as it was. -/
structure Moves (act : StackM StackError α) (n : Nat) (Leaves : Stack → α → Stack → Prop) :
    Prop where
  ok_iff : ∀ s x t, act s = .ok x t ↔ Leaves s x t
  exists_ok_iff : ∀ s, (∃ x t, act s = .ok x t) ↔ n ≤ s.length
  error_eq : ∀ s e t, act s = .error e t → e = .invalidOperation ∧ t = s

theorem Moves.of_groups {act : StackM StackError α} {Leaves : Stack → α → Stack → Prop}
    (hfew : ∀ s, s.length < n → act s = .error .invalidOperation s)
    (henough : ∀ s, n ≤ s.length → ∃ x t, Leaves s x t)
    (hact : ∀ s x t, Leaves s x t → act s = .ok x t) : Moves act n Leaves := by
  have hlength : ∀ s x t, act s = .ok x t → n ≤ s.length := by
    intro s x t h
    by_contra hshort
    rw [hfew s (Nat.not_le.mp hshort)] at h
    cases h
  refine ⟨fun s x t => ⟨fun h => ?_, hact s x t⟩, fun s => ⟨fun h => ?_, fun h => ?_⟩,
    fun s e t h => ?_⟩
  · obtain ⟨x', t', hleaves⟩ := henough s (hlength s x t h)
    have heq := h.symm.trans (hact s x' t' hleaves)
    cases heq
    exact hleaves
  · obtain ⟨x, t, h⟩ := h
    exact hlength s x t h
  · obtain ⟨x, t, hleaves⟩ := henough s h
    exact ⟨x, t, hact s x t hleaves⟩
  · by_cases hshort : s.length < n
    · cases (hfew s hshort).symm.trans h
      exact ⟨rfl, rfl⟩
    · obtain ⟨x, t', hleaves⟩ := henough s (Nat.not_lt.mp hshort)
      cases (hact s x t' hleaves).symm.trans h

theorem moves_rearrange {f : Stack → Stack} {Leaves : Stack → Stack → Prop}
    (henough : ∀ s, n ≤ s.length → ∃ t, Leaves s t)
    (hact : ∀ s t, Leaves s t → n ≤ s.length ∧ f s = t) :
    Moves (rearrange n f) n fun s _ t => Leaves s t := by
  refine .of_groups (fun s h => by simp [rearrange, h]) (fun s h => ?_) fun s x t h => ?_
  · obtain ⟨t, ht⟩ := henough s h
    exact ⟨(), t, ht⟩
  · exact rearrange_eq_ok_iff.mpr (hact s t h)

theorem exists_group (h : n ≤ s.length) : ∃ a t : Stack, a.length = n ∧ s = a ++ t :=
  ⟨s.take n, List.drop n s, List.length_take_of_le h, (List.take_append_drop n s).symm⟩

theorem exists_two_groups (h : 2 * n ≤ s.length) :
    ∃ a b t : Stack, a.length = n ∧ b.length = n ∧ s = a ++ (b ++ t) := by
  obtain ⟨a, t, ha, rfl⟩ := exists_group (show n ≤ s.length by omega)
  rw [List.length_append] at h
  obtain ⟨b, t, hb, rfl⟩ := exists_group (show n ≤ t.length by omega)
  exact ⟨a, b, t, ha, hb, rfl⟩

theorem exists_three_groups (h : 3 * n ≤ s.length) :
    ∃ a b c t : Stack, a.length = n ∧ b.length = n ∧ c.length = n ∧ s = a ++ (b ++ (c ++ t)) := by
  obtain ⟨a, t, ha, rfl⟩ := exists_group (show n ≤ s.length by omega)
  rw [List.length_append] at h
  obtain ⟨b, c, t, hb, hc, rfl⟩ := exists_two_groups (show 2 * n ≤ t.length by omega)
  exact ⟨a, b, c, t, ha, hb, hc, rfl⟩

theorem moves_drop (n : Nat) :
    Moves (drop n) n fun s _ t => ∃ a : Stack, a.length = n ∧ s = a ++ t := by
  refine moves_rearrange (fun s h => ?_) fun s t h => ?_
  · obtain ⟨a, t, ha, hs⟩ := exists_group h
    exact ⟨t, a, ha, hs⟩
  · obtain ⟨a, rfl, rfl⟩ := h
    simp

theorem moves_dup (n : Nat) : Moves (dup n) n fun s _ t =>
    ∃ a rest : Stack, a.length = n ∧ s = a ++ rest ∧ t = a ++ s := by
  refine moves_rearrange (fun s h => ?_) fun s t h => ?_
  · obtain ⟨a, rest, ha, hs⟩ := exists_group h
    exact ⟨a ++ s, a, rest, ha, hs, rfl⟩
  · obtain ⟨a, rest, rfl, rfl, rfl⟩ := h
    simp

theorem moves_dupBelow (n : Nat) : Moves (dupBelow n) (2 * n) fun s _ t =>
    ∃ a b rest : Stack, a.length = n ∧ b.length = n ∧ s = a ++ (b ++ rest) ∧ t = b ++ s := by
  refine moves_rearrange (fun s h => ?_) fun s t h => ?_
  · obtain ⟨a, b, rest, ha, hb, hs⟩ := exists_two_groups h
    exact ⟨b ++ s, a, b, rest, ha, hb, hs, rfl⟩
  · obtain ⟨a, b, rest, rfl, hb, rfl, rfl⟩ := h
    refine ⟨by simp only [List.length_append]; omega, ?_⟩
    rw [List.drop_left, List.take_left' hb]

theorem moves_swap (n : Nat) : Moves (swap n) (2 * n) fun s _ t =>
    ∃ a b rest : Stack, a.length = n ∧ b.length = n ∧ s = a ++ (b ++ rest) ∧
      t = b ++ (a ++ rest) := by
  refine moves_rearrange (fun s h => ?_) fun s t h => ?_
  · obtain ⟨a, b, rest, ha, hb, hs⟩ := exists_two_groups h
    exact ⟨b ++ (a ++ rest), a, b, rest, ha, hb, hs, rfl⟩
  · obtain ⟨a, b, rest, rfl, hb, rfl, rfl⟩ := h
    have hboth : (a ++ b).length = 2 * a.length := by
      rw [List.length_append]
      omega
    refine ⟨by simp only [List.length_append]; omega, ?_⟩
    rw [List.drop_left, List.take_left' hb, List.take_left, ← List.append_assoc a b rest,
      List.drop_left' hboth]

theorem moves_rot (n : Nat) : Moves (rot n) (3 * n) fun s _ t =>
    ∃ a b c rest : Stack, a.length = n ∧ b.length = n ∧ c.length = n ∧
      s = a ++ (b ++ (c ++ rest)) ∧ t = c ++ (a ++ (b ++ rest)) := by
  refine moves_rearrange (fun s h => ?_) fun s t h => ?_
  · obtain ⟨a, b, c, rest, ha, hb, hc, hs⟩ := exists_three_groups h
    exact ⟨c ++ (a ++ (b ++ rest)), a, b, c, rest, ha, hb, hc, hs, rfl⟩
  · obtain ⟨a, b, c, rest, rfl, hb, hc, rfl, rfl⟩ := h
    have htwo : (a ++ b).length = 2 * a.length := by
      rw [List.length_append]
      omega
    have hthree : (a ++ b ++ c).length = 3 * a.length := by
      rw [List.length_append]
      omega
    refine ⟨by simp only [List.length_append]; omega, ?_⟩
    rw [← List.append_assoc a b (c ++ rest), List.drop_left' htwo, List.take_left' hc,
      List.take_left' htwo, ← List.append_assoc (a ++ b) c rest, List.drop_left' hthree,
      List.append_assoc]

theorem exists_element {i : Nat} (h : i + 1 ≤ s.length) :
    ∃ (a : Stack) (x : Bytes) (rest : Stack), a.length = i ∧ s = a ++ x :: rest := by
  obtain ⟨a, t, ha, rfl⟩ := exists_group (show i ≤ s.length by omega)
  cases t with
  | nil =>
    rw [List.append_nil] at h
    omega
  | cons x rest => exact ⟨a, x, rest, ha, rfl⟩

theorem moves_top (i : Nat) : Moves (top i) (i + 1) fun s x t =>
    ∃ a rest : Stack, a.length = i ∧ s = a ++ x :: rest ∧ t = s := by
  refine .of_groups (fun s h => ?_) (fun s h => ?_) fun s x t h => ?_
  · simp [top, List.getElem?_eq_none (Nat.le_of_lt_succ h)]
  · obtain ⟨a, x, rest, ha, hs⟩ := exists_element h
    exact ⟨x, s, a, rest, ha, hs, rfl⟩
  · obtain ⟨a, rest, rfl, rfl, rfl⟩ := h
    simp [top]

theorem moves_remove (i : Nat) : Moves (remove i) (i + 1) fun s x t =>
    ∃ a rest : Stack, a.length = i ∧ s = a ++ x :: rest ∧ t = a ++ rest := by
  refine .of_groups (fun s h => ?_) (fun s h => ?_) fun s x t h => ?_
  · simp [remove, List.getElem?_eq_none (Nat.le_of_lt_succ h)]
  · obtain ⟨a, x, rest, ha, hs⟩ := exists_element h
    exact ⟨x, a ++ rest, a, rest, ha, hs, rfl⟩
  · obtain ⟨a, rest, rfl, rfl, rfl⟩ := h
    simp [remove, List.eraseIdx_append_of_length_le]

theorem exists_two_elements (h : 2 ≤ s.length) : ∃ x y rest, s = x :: y :: rest := by
  obtain ⟨a, b, rest, ha, hb, rfl⟩ := exists_two_groups (n := 1) h
  obtain ⟨x, rfl⟩ := List.length_eq_one_iff.mp ha
  obtain ⟨y, rfl⟩ := List.length_eq_one_iff.mp hb
  exact ⟨x, y, rest, rfl⟩

theorem moves_nip : Moves nip 2 fun s _ t =>
    ∃ x y rest, s = x :: y :: rest ∧ t = x :: rest := by
  refine .of_groups (fun s h => ?_) (fun s h => ?_) fun s _ t h => ?_
  · exact bind_of_error (by simp [remove, List.getElem?_eq_none (Nat.le_of_lt_succ h)])
  · obtain ⟨x, y, rest, hs⟩ := exists_two_elements h
    exact ⟨(), x :: rest, x, y, rest, hs, rfl⟩
  · obtain ⟨x, y, rest, rfl, rfl⟩ := h
    rfl

theorem moves_tuck : Moves tuck 2 fun s _ t =>
    ∃ x y rest, s = x :: y :: rest ∧ t = x :: y :: x :: rest := by
  refine moves_rearrange (fun s h => ?_) fun s t h => ?_
  · obtain ⟨x, y, rest, hs⟩ := exists_two_elements h
    exact ⟨x :: y :: x :: rest, x, y, rest, hs, rfl⟩
  · obtain ⟨x, y, rest, rfl, rfl⟩ := h
    exact ⟨Nat.le_add_left 2 rest.length, rfl⟩

theorem moves_require (n : Nat) : Moves (require n) n fun s _ t => n ≤ s.length ∧ t = s :=
  moves_rearrange (fun s h => ⟨s, h, rfl⟩) fun _ _ h => ⟨h.1, h.2.symm⟩

theorem Moves.eq_error {act : StackM StackError α} {Leaves : Stack → α → Stack → Prop}
    (h : Moves act n Leaves) (hfew : ¬n ≤ s.length) : act s = .error .invalidOperation s := by
  cases hact : act s with
  | ok x t => exact absurd ((h.exists_ok_iff s).mp ⟨x, t, hact⟩) hfew
  | error e t =>
    obtain ⟨rfl, rfl⟩ := h.error_eq s e t hact
    rfl

/-- An operation that is then undone leaves just the demand for the elements that it needs. -/
theorem Moves.bind_eq_require {act next : StackM StackError Unit}
    {Leaves : Stack → Unit → Stack → Prop} (h : Moves act n Leaves)
    (hnext : ∀ s t, Leaves s () t → next t = .ok () s) : (act >>= fun _ => next) = require n := by
  funext s
  by_cases henough : n ≤ s.length
  · obtain ⟨_, t, ht⟩ := (h.exists_ok_iff s).mpr henough
    rw [bind_of_ok ht, hnext s t ((h.ok_iff s () t).mp ht)]
    exact (((moves_require n).ok_iff s () s).mpr ⟨henough, rfl⟩).symm
  · rw [bind_of_error (h.eq_error henough), (moves_require n).eq_error henough]

theorem swap_swap (n : Nat) : (do swap n; swap n) = require (2 * n) := by
  refine (moves_swap n).bind_eq_require fun s t h => ?_
  obtain ⟨a, b, rest, ha, hb, rfl, rfl⟩ := h
  exact ((moves_swap n).ok_iff _ _ _).mpr ⟨b, a, rest, hb, ha, rfl, rfl⟩

theorem rot_rot_rot (n : Nat) : (do rot n; rot n; rot n) = require (3 * n) := by
  refine (moves_rot n).bind_eq_require fun s t h => ?_
  obtain ⟨a, b, c, rest, ha, hb, hc, rfl, rfl⟩ := h
  have hsecond : rot n (c ++ (a ++ (b ++ rest))) = .ok () (b ++ (c ++ (a ++ rest))) :=
    ((moves_rot n).ok_iff _ _ _).mpr ⟨c, a, b, rest, hc, ha, hb, rfl, rfl⟩
  rw [bind_of_ok hsecond]
  exact ((moves_rot n).ok_iff _ _ _).mpr ⟨b, c, a, rest, hb, hc, ha, rfl, rfl⟩

theorem dup_drop (n : Nat) : (do dup n; drop n) = require n := by
  refine (moves_dup n).bind_eq_require fun s t h => ?_
  obtain ⟨a, rest, ha, rfl, rfl⟩ := h
  exact ((moves_drop n).ok_iff _ _ _).mpr ⟨a, ha, rfl⟩

theorem dupBelow_drop (n : Nat) : (do dupBelow n; drop n) = require (2 * n) := by
  refine (moves_dupBelow n).bind_eq_require fun s t h => ?_
  obtain ⟨a, b, rest, ha, hb, rfl, rfl⟩ := h
  exact ((moves_drop n).ok_iff _ _ _).mpr ⟨b, hb, rfl⟩

/-- What each operation needs and what it does with it, the top group of elements written first.
Whatever is not named stays where it is. Exchanging twice, rotating three times, and taking off what
was copied change nothing. -/
theorem moves_exact (n : Nat) :
    Moves (drop n) n (fun s _ t => ∃ a : Stack, a.length = n ∧ s = a ++ t) ∧
    Moves (dup n) n (fun s _ t => ∃ a rest : Stack, a.length = n ∧ s = a ++ rest ∧ t = a ++ s) ∧
    Moves (dupBelow n) (2 * n) (fun s _ t => ∃ a b rest : Stack, a.length = n ∧ b.length = n ∧
      s = a ++ (b ++ rest) ∧ t = b ++ s) ∧
    Moves (swap n) (2 * n) (fun s _ t => ∃ a b rest : Stack, a.length = n ∧ b.length = n ∧
      s = a ++ (b ++ rest) ∧ t = b ++ (a ++ rest)) ∧
    Moves (rot n) (3 * n) (fun s _ t => ∃ a b c rest : Stack, a.length = n ∧ b.length = n ∧
      c.length = n ∧ s = a ++ (b ++ (c ++ rest)) ∧ t = c ++ (a ++ (b ++ rest))) ∧
    Moves (top n) (n + 1) (fun s x t => ∃ a rest : Stack, a.length = n ∧ s = a ++ x :: rest ∧
      t = s) ∧
    Moves (remove n) (n + 1) (fun s x t => ∃ a rest : Stack, a.length = n ∧
      s = a ++ x :: rest ∧ t = a ++ rest) ∧
    Moves nip 2 (fun s _ t => ∃ x y rest, s = x :: y :: rest ∧ t = x :: rest) ∧
    Moves tuck 2 (fun s _ t => ∃ x y rest, s = x :: y :: rest ∧ t = x :: y :: x :: rest) ∧
    (∀ k, Moves (require k) k fun s _ t => k ≤ s.length ∧ t = s) ∧
    (do swap n; swap n) = require (2 * n) ∧ (do rot n; rot n; rot n) = require (3 * n) ∧
    (do dup n; drop n) = require n ∧ (do dupBelow n; drop n) = require (2 * n) :=
  ⟨moves_drop n, moves_dup n, moves_dupBelow n, moves_swap n, moves_rot n, moves_top n,
    moves_remove n, moves_nip, moves_tuck, moves_require, swap_swap n, rot_rot_rot n, dup_drop n,
    dupBelow_drop n⟩

example : rot 2 [[1], [2], [3], [4], [5], [6], [7]] =
    .ok () [[5], [6], [1], [2], [3], [4], [7]] := rfl

end Stack

end BitcoinSpend

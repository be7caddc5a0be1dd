import Mathlib.Data.List.Sort
import Mathlib.Order.RelClasses
import Mathlib.Tactic.Common

namespace BitcoinSpend

variable {κ ν : Type} {r : κ → κ → Prop} {key k : κ} {value v : ν} {es es' : List (κ × ν)}
  {e : κ × ν}

theorem find?_key_eq_some_iff [DecidableEq κ] (h : (es.map Prod.fst).Nodup) :
    (es.find? fun e => e.1 = k).map Prod.snd = some v ↔ (k, v) ∈ es := by
  induction es with
  | nil => simp
  | cons e es ih =>
    obtain ⟨key, value⟩ := e
    obtain ⟨hkey, hes⟩ := List.nodup_cons.mp h
    rw [List.find?_cons]
    by_cases hk : key = k
    · subst hk
      have hmem : (key, v) ∉ es := fun hmem => hkey (List.mem_map_of_mem hmem : (key, v).1 ∈ _)
      simp [hmem, eq_comm]
    · simp [hk, Ne.symm hk, ih hes]

/-- The keys ascend. -/
def Ascends (r : κ → κ → Prop) (es : List (κ × ν)) : Prop :=
  es.Pairwise fun e e' => r e.1 e'.1

theorem Ascends.nodup [Std.Irrefl r] (h : Ascends r es) : (es.map Prod.fst).Nodup := by
  refine List.pairwise_map.mpr (h.imp fun {e e'} hlt heq => ?_)
  rw [heq] at hlt
  exact Std.Irrefl.irrefl _ hlt

/-- The entries tell the list. -/
theorem Ascends.eq_of_mem_iff [IsTrans κ r] [Std.Irrefl r] (h : Ascends r es) (h' : Ascends r es')
    (hmem : ∀ e, e ∈ es ↔ e ∈ es') : es = es' := by
  have hirrefl : Std.Irrefl fun e e' : κ × ν => r e.1 e'.1 := ⟨fun _ => Std.Irrefl.irrefl _⟩
  have hantisymm : Std.Antisymm fun e e' : κ × ν => r e.1 e'.1 :=
    ⟨fun _ _ hlt hgt => absurd (IsTrans.trans _ _ _ hlt hgt) (Std.Irrefl.irrefl _)⟩
  exact List.Pairwise.eq_of_mem_iff h h' hmem

/-- An entry is put into its place, where it replaces one with its key. -/
inductive Puts (r : κ → κ → Prop) (key : κ) (value : ν) : List (κ × ν) → List (κ × ν) → Prop
  | last : Puts r key value [] [(key, value)]
  | before {k : κ} {v : ν} {es : List (κ × ν)} : r key k →
    Puts r key value ((k, v) :: es) ((key, value) :: (k, v) :: es)
  | replace {v : ν} {es : List (κ × ν)} : Puts r key value ((key, v) :: es) ((key, value) :: es)
  | behind {k : κ} {v : ν} {es es' : List (κ × ν)} : r k key → Puts r key value es es' →
    Puts r key value ((k, v) :: es) ((k, v) :: es')

namespace Puts

theorem mem_or (h : Puts r key value es es') (he : e ∈ es') : e = (key, value) ∨ e ∈ es := by
  induction h with
  | last => exact .inl (List.mem_singleton.mp he)
  | before _ => exact List.mem_cons.mp he
  | replace => exact (List.mem_cons.mp he).imp_right (List.mem_cons_of_mem _)
  | behind _ _ ih =>
    rcases List.mem_cons.mp he with rfl | he
    · exact .inr List.mem_cons_self
    · exact (ih he).imp_right (List.mem_cons_of_mem _)

theorem mem_self (h : Puts r key value es es') : (key, value) ∈ es' := by
  induction h with
  | behind _ _ ih => exact List.mem_cons_of_mem _ ih
  | _ => exact List.mem_cons_self

theorem mem_of_ne (h : Puts r key value es es') (he : e ∈ es) (hne : e.1 ≠ key) : e ∈ es' := by
  induction h with
  | last => simp at he
  | before _ => exact List.mem_cons_of_mem _ he
  | replace =>
    rcases List.mem_cons.mp he with rfl | he
    · exact absurd rfl hne
    · exact List.mem_cons_of_mem _ he
  | behind _ _ ih =>
    rcases List.mem_cons.mp he with rfl | he
    · exact List.mem_cons_self
    · exact List.mem_cons_of_mem _ (ih he)

theorem ascends [IsTrans κ r] (h : Puts r key value es es') (hes : Ascends r es) :
    Ascends r es' := by
  induction h with
  | last => exact List.pairwise_singleton _ _
  | before hlt =>
    refine List.pairwise_cons.mpr ⟨List.forall_mem_cons.mpr ⟨hlt, fun e he => ?_⟩, hes⟩
    exact IsTrans.trans _ _ _ hlt ((List.pairwise_cons.mp hes).1 e he)
  | replace => exact List.pairwise_cons.mpr (List.pairwise_cons.mp hes)
  | behind hlt hput ih =>
    obtain ⟨hfirst, hrest⟩ := List.pairwise_cons.mp hes
    refine List.pairwise_cons.mpr ⟨fun e he => ?_, ih hrest⟩
    rcases hput.mem_or he with rfl | he
    · exact hlt
    · exact hfirst e he

/-- Under its key an entry is the only one there is, and the others are as before. -/
theorem mem_iff [IsTrans κ r] [Std.Irrefl r] [DecidableEq κ] (h : Puts r key value es es')
    (hes : Ascends r es) : (k, v) ∈ es' ↔ if key = k then v = value else (k, v) ∈ es := by
  by_cases hk : key = k
  · subst hk
    have hnodup := (h.ascends hes).nodup
    have hself := (find?_key_eq_some_iff hnodup).mpr h.mem_self
    rw [if_pos rfl, ← find?_key_eq_some_iff hnodup, hself, Option.some.injEq, eq_comm]
  · rw [if_neg hk]
    constructor
    · intro hmem
      rcases h.mem_or hmem with heq | hmem
      · exact absurd (congrArg Prod.fst heq).symm hk
      · exact hmem
    · exact fun hmem => h.mem_of_ne hmem (Ne.symm hk)

end Puts

end BitcoinSpend

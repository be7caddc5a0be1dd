import BitcoinSpend.Json.Members
import BitcoinSpend.Proofs.Ascending
import Mathlib.Data.List.Induction
import Mathlib.Data.String.Basic

namespace BitcoinSpend

namespace Json

variable {ms : List (String × String)} {key k v : String}

/-- The value that counts for a key, which is the last one. -/
def value? (ms : List (String × String)) (key : String) : Option String :=
  (ms.reverse.find? fun m => m.1 = key).map Prod.snd

@[simp] theorem value?_nil : value? [] key = none := rfl

theorem value?_append_singleton (m : String × String) :
    value? (ms ++ [m]) k = if m.1 = k then some m.2 else value? ms k := by
  unfold value?
  rw [List.reverse_append, List.reverse_singleton, List.singleton_append, List.find?_cons]
  by_cases h : m.1 = k
  · simp [h]
  · simp [h]

theorem value?_eq_some_iff (h : (ms.map Prod.fst).Nodup) : value? ms k = some v ↔ (k, v) ∈ ms := by
  have hreverse : (ms.reverse.map Prod.fst).Nodup := by
    rw [List.map_reverse]
    exact List.nodup_reverse.mpr h
  exact (find?_key_eq_some_iff hreverse).trans List.mem_reverse

theorem puts_insertMember (key value : String) (ms : List (String × String)) :
    Puts (· < ·) key value ms (insertMember key value ms) := by
  induction ms with
  | nil => exact .last
  | cons m ms ih =>
    unfold insertMember
    split
    next hlt => exact .before hlt
    next hlt =>
      split
      next heq =>
        subst heq
        exact .replace
      next hne => exact .behind (lt_of_le_of_ne (not_lt.mp hlt) (Ne.symm hne)) ih

theorem ascends_sortMembers (ms : List (String × String)) : Ascends (· < ·) (sortMembers ms) := by
  induction ms using List.reverseRecOn with
  | nil => exact .nil
  | append_singleton ms m ih =>
    rw [sortMembers, List.foldl_append]
    exact (puts_insertMember m.1 m.2 _).ascends ih

/-- Sorting keeps just the members that count. -/
theorem mem_sortMembers_iff : (k, v) ∈ sortMembers ms ↔ value? ms k = some v := by
  induction ms using List.reverseRecOn with
  | nil => simp [sortMembers]
  | append_singleton ms m ih =>
    rw [sortMembers, List.foldl_append, value?_append_singleton]
    refine ((puts_insertMember m.1 m.2 _).mem_iff (ascends_sortMembers ms)).trans ?_
    rw [ih]
    split
    · simp [eq_comm]
    · rfl

end Json

end BitcoinSpend

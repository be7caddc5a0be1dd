import BitcoinSpend.Machine.Conditional
import BitcoinSpend.Script.Template
import Mathlib.Data.List.Infix

namespace BitcoinSpend

namespace Script

/-- How many conditionals a script opens. -/
def openings (s : Script) : Nat :=
  s.countP Command.opensConditional

/-- How many conditionals a script ends. -/
def endings (s : Script) : Nat :=
  s.count (.op .endIf)

@[simp] theorem endings_nil : endings [] = 0 := rfl

@[simp] theorem openings_nil : openings [] = 0 := rfl

@[simp] theorem endings_cons (c : Command) (s : Script) :
    endings (c :: s) = endings s + if c = .op .endIf then 1 else 0 := by
  simp [endings, List.count_cons]

@[simp] theorem openings_cons (c : Command) (s : Script) :
    openings (c :: s) = openings s + if c.opensConditional then 1 else 0 :=
  List.countP_cons

@[simp] theorem endings_append (s t : Script) : endings (s ++ t) = endings s + endings t :=
  List.count_append

@[simp] theorem openings_append (s t : Script) : openings (s ++ t) = openings s + openings t :=
  List.countP_append

/-- No part of the script from its start ends more conditionals than it opens, and the whole script
ends as many as it opens. -/
structure Balanced (s : Script) : Prop where
  endings_le : ∀ p : Script, p <+: s → p.endings ≤ p.openings
  endings_eq : s.endings = s.openings

instance (s : Script) : Decidable (Balanced s) :=
  decidable_of_iff ((∀ p ∈ s.inits, endings p ≤ openings p) ∧ s.endings = s.openings)
    ⟨fun h => ⟨fun p hp => h.1 p ((List.mem_inits p s).mpr hp), h.2⟩,
      fun h => ⟨fun p hp => h.1 p ((List.mem_inits p s).mp hp), h.2⟩⟩

theorem Balanced.append {s t : Script} (hs : Balanced s) (ht : Balanced t) :
    Balanced (s ++ t) := by
  refine ⟨?_, ?_⟩
  · intro p hp
    rcases List.prefix_or_prefix_of_prefix hp (List.prefix_append s t) with hps | ⟨q, rfl⟩
    · exact hs.endings_le p hps
    · have hq := ht.endings_le q ((List.prefix_append_right_inj s).mp hp)
      have heq := hs.endings_eq
      rw [endings_append, openings_append]
      omega
  · rw [endings_append, openings_append, hs.endings_eq, ht.endings_eq]

/-- A script that neither opens nor ends a conditional is balanced. -/
theorem balanced_of_endings_openings {s : Script} (hend : s.endings = 0) (hopen : s.openings = 0) :
    Balanced s := by
  refine ⟨?_, by omega⟩
  intro p hp
  have hsub : p.endings ≤ s.endings := hp.sublist.count_le _
  omega

theorem balanced_payToKeyHash (h : FixedBytes 20) : Balanced (payToKeyHash h) :=
  balanced_of_endings_openings rfl rfl

theorem balanced_payToKeyHashes (hs : List (FixedBytes 20)) :
    Balanced (hs.flatMap payToKeyHash) := by
  induction hs with
  | nil => decide
  | cons h hs ih => exact (balanced_payToKeyHash h).append ih

end Script

namespace Conditional

/-- A script with an end for none of the open conditionals has no end that matches. -/
theorem scan?_eq_none {depth : Nat} {inFirst : Bool} {s : Script}
    (h : ∀ p : Script, p <+: s → p.endings ≤ depth + p.openings) :
    scan? depth inFirst s = none := by
  induction s generalizing depth inFirst with
  | nil => rfl
  | cons c s ih =>
    have hc : ∀ p : Script, p <+: s → p.endings + (if c = .op .endIf then 1 else 0) ≤
        depth + (p.openings + if c.opensConditional then 1 else 0) := by
      intro p hp
      simpa using h (c :: p) (List.cons_prefix_cons.mpr ⟨rfl, hp⟩)
    by_cases hopen : c.opensConditional = true
    · have hend : c ≠ .op .endIf := by
        intro heq
        subst heq
        revert hopen
        decide
      have hs : scan? (depth + 1) inFirst s = none := by
        apply ih
        intro p hp
        have hle := hc p hp
        rw [if_neg hend, if_pos hopen] at hle
        omega
      simp [scan?, hopen, hs]
    by_cases hend : c = .op .endIf
    · have hle : ∀ p : Script, p <+: s → p.endings + 1 ≤ depth + p.openings := by
        intro p hp
        have hle := hc p hp
        rw [if_pos hend, if_neg hopen] at hle
        omega
      cases depth with
      | zero =>
        have hnil := hle [] List.nil_prefix
        rw [Script.endings_nil, Script.openings_nil] at hnil
        omega
      | succ depth =>
        have hs : scan? depth inFirst s = none := by
          apply ih
          intro p hp
          have hp' := hle p hp
          omega
        subst hend
        simp [scan?, hopen, hs]
    have hs : ∀ inFirst, scan? depth inFirst s = none := by
      intro inFirst
      apply ih
      intro p hp
      have hle := hc p hp
      rw [if_neg hend, if_neg hopen] at hle
      omega
    by_cases helse : c = .op .orElse ∧ depth = 0
    · obtain ⟨rfl, rfl⟩ := helse
      simp [scan?, hopen, hend, hs]
    · simp [scan?, hopen, hend, helse, hs]

theorem scan?_append {depth : Nat} {inFirst : Bool} {front tail : Script} {b : Conditional}
    (htail : Script.Balanced tail) (h : scan? depth inFirst (front ++ tail) = some b) :
    ∃ rest, b.rest = rest ++ tail := by
  induction front generalizing depth inFirst b with
  | nil =>
    have hnone : scan? depth inFirst tail = none :=
      scan?_eq_none fun p hp => by have := htail.endings_le p hp; omega
    simp [hnone] at h
  | cons c front ih =>
    simp only [List.cons_append, scan?] at h
    have keep : ∀ {d : Nat} {f g : Bool}, (scan? d f (front ++ tail)).map (cons g c) = some b →
        ∃ rest, b.rest = rest ++ tail := by
      intro d f g hmap
      obtain ⟨b', hb', rfl⟩ := Option.map_eq_some_iff.mp hmap
      obtain ⟨rest, hrest⟩ := ih hb'
      cases g <;> exact ⟨rest, hrest⟩
    split at h
    next => exact keep h
    next =>
      split at h
      next =>
        cases depth with
        | zero =>
          cases Option.some.inj h
          exact ⟨front, rfl⟩
        | succ depth => exact keep h
      next =>
        split at h
        next => exact ih h
        next => exact keep h

/-- Cutting a conditional out leaves a balanced tail of the queue whole. -/
theorem branch_append_of_split? {front tail : Script} {b : Conditional} (condition : Bool)
    (htail : Script.Balanced tail) (h : split? (front ++ tail) = some b) :
    ∃ front', b.branch condition ++ b.rest = front' ++ tail := by
  obtain ⟨rest, hrest⟩ := scan?_append htail h
  exact ⟨b.branch condition ++ rest, by rw [hrest, List.append_assoc]⟩

end Conditional

end BitcoinSpend

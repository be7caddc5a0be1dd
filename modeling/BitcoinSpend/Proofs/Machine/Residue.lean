import BitcoinSpend.Machine.Conditional
import Mathlib.Tactic.Common

namespace BitcoinSpend

/-- A command that has no part in a conditional. -/
structure Command.IsPlain (c : Command) : Prop where
  opens : c.opensConditional = false
  ne_orElse : c ≠ .op .orElse
  ne_endIf : c ≠ .op .endIf

theorem Command.cases_conditional (c : Command) :
    c.opensConditional = true ∨ c = .op .orElse ∨ c = .op .endIf ∨ c.IsPlain := by
  by_cases hopen : c.opensConditional = true
  · exact Or.inl hopen
  by_cases helse : c = .op .orElse
  · exact Or.inr (Or.inl helse)
  by_cases hend : c = .op .endIf
  · exact Or.inr (Or.inr (Or.inl hend))
  · exact Or.inr (Or.inr (Or.inr ⟨by simpa using hopen, helse, hend⟩))

namespace Conditional

@[simp] theorem rest_cons (inFirst : Bool) (c : Command) (b : Conditional) :
    (cons inFirst c b).rest = b.rest := by
  cases inFirst <;> rfl

@[simp] theorem rest_foldr_cons (inFirst : Bool) (front : Script) (b : Conditional) :
    (front.foldr (cons inFirst) b).rest = b.rest := by
  induction front with
  | nil => rfl
  | cons c front ih => rw [List.foldr_cons, rest_cons, ih]

theorem first_cons (inFirst : Bool) (c : Command) (b : Conditional) :
    (cons inFirst c b).first = if inFirst then c :: b.first else b.first := by
  cases inFirst <;> rfl

theorem first_foldr_cons (inFirst : Bool) (front : Script) (b : Conditional) :
    (front.foldr (cons inFirst) b).first = if inFirst then front ++ b.first else b.first := by
  induction front with
  | nil => cases inFirst <;> rfl
  | cons c front ih =>
    rw [List.foldr_cons, first_cons, ih]
    cases inFirst <;> rfl

section

variable {depth : Nat} {inFirst : Bool} {c : Command} {cs : Script}

theorem scan?_open (h : c.opensConditional = true) :
    scan? depth inFirst (c :: cs) = (scan? (depth + 1) inFirst cs).map (cons inFirst c) := by
  simp [scan?, h]

theorem scan?_orElse_zero : scan? 0 inFirst (.op .orElse :: cs) = scan? 0 (!inFirst) cs := by
  have hopen : Command.opensConditional (.op .orElse) = false := by decide
  have hend : Command.op .orElse ≠ .op .endIf := by decide
  simp [scan?, hopen, hend]

theorem scan?_orElse_succ : scan? (depth + 1) inFirst (.op .orElse :: cs) =
    (scan? (depth + 1) inFirst cs).map (cons inFirst (.op .orElse)) := by
  have hopen : Command.opensConditional (.op .orElse) = false := by decide
  have hend : Command.op .orElse ≠ .op .endIf := by decide
  simp [scan?, hopen, hend]

theorem scan?_endIf_zero : scan? 0 inFirst (.op .endIf :: cs) = some ⟨[], [], cs⟩ := by
  have hopen : Command.opensConditional (.op .endIf) = false := by decide
  simp [scan?, hopen]

theorem scan?_endIf_succ : scan? (depth + 1) inFirst (.op .endIf :: cs) =
    (scan? depth inFirst cs).map (cons inFirst (.op .endIf)) := by
  have hopen : Command.opensConditional (.op .endIf) = false := by decide
  simp [scan?, hopen]

theorem scan?_plain (h : c.IsPlain) :
    scan? depth inFirst (c :: cs) = (scan? depth inFirst cs).map (cons inFirst c) := by
  simp [scan?, h.opens, h.ne_orElse, h.ne_endIf]

end

def exchange (b : Conditional) : Conditional :=
  ⟨b.second, b.first, b.rest⟩

theorem exchange_cons (inFirst : Bool) (c : Command) (b : Conditional) :
    exchange (cons inFirst c b) = cons (!inFirst) c (exchange b) := by
  cases inFirst <;> rfl

/-- A scan that starts in the other branch exchanges the branches. -/
theorem scan?_not (depth : Nat) (inFirst : Bool) (s : Script) :
    scan? depth (!inFirst) s = (scan? depth inFirst s).map exchange := by
  have keep : ∀ {d : Nat} {b : Bool} {c : Command} {cs : Script},
      scan? d (!b) cs = (scan? d b cs).map exchange →
      (scan? d (!b) cs).map (cons (!b) c) = ((scan? d b cs).map (cons b c)).map exchange := by
    intro d b c cs h
    rw [h, Option.map_map, Option.map_map]
    exact congrArg (Option.map · _) (funext fun x => (exchange_cons b c x).symm)
  induction s generalizing depth inFirst with
  | nil => rfl
  | cons c cs ih =>
    rcases c.cases_conditional with hopen | rfl | rfl | hplain
    · rw [scan?_open hopen, scan?_open hopen]
      exact keep (ih _ _)
    · cases depth with
      | zero => rw [scan?_orElse_zero, scan?_orElse_zero, ih]
      | succ depth =>
        rw [scan?_orElse_succ, scan?_orElse_succ]
        exact keep (ih _ _)
    · cases depth with
      | zero => rw [scan?_endIf_zero, scan?_endIf_zero]; rfl
      | succ depth =>
        rw [scan?_endIf_succ, scan?_endIf_succ]
        exact keep (ih _ _)
    · rw [scan?_plain hplain, scan?_plain hplain]
      exact keep (ih _ _)

/-- Whichever branch is chosen, it is the first one of a scan that starts in it. -/
theorem split?_branch (condition : Bool) (s : Script) :
    (split? s).map (fun b => b.branch condition ++ b.rest) =
      (scan? 0 condition s).map fun b => b.first ++ b.rest := by
  cases condition with
  | true => rfl
  | false =>
    have h := scan?_not 0 true s
    rw [Bool.not_true] at h
    rw [h, Option.map_map]
    rfl

/-- What a scan reads up to the end that matches it: it stops behind it whatever comes next, and a
scan that is deeper goes on with what comes next. -/
structure Closes (depth : Nat) (inFirst : Bool) (front first second : Script) : Prop where
  scan_eq : ∀ tail, scan? depth inFirst (front ++ tail) = some ⟨first, second, tail⟩
  deeper_eq : ∀ outer inOuter tail, scan? (depth + 1 + outer) inOuter (front ++ tail) =
    (scan? outer inOuter tail).map fun b => front.foldr (cons inOuter) b

theorem Closes.cons {depth next : Nat} {inFirst : Bool} {c : Command} {front : Script}
    {b : Conditional} (hstep : ∀ extra inBranch cs, scan? (depth + extra) inBranch (c :: cs) =
      (scan? (next + extra) inBranch cs).map (cons inBranch c))
    (h : Closes next inFirst front b.first b.second) :
    Closes depth inFirst (c :: front) (cons inFirst c b).first (cons inFirst c b).second := by
  refine ⟨?_, ?_⟩
  · intro tail
    have hscan := hstep 0 inFirst (front ++ tail)
    rw [Nat.add_zero, Nat.add_zero, h.scan_eq] at hscan
    rw [List.cons_append, hscan]
    cases inFirst <;> rfl
  · intro outer inOuter tail
    have hscan := hstep (1 + outer) inOuter (front ++ tail)
    rw [← Nat.add_assoc, ← Nat.add_assoc, h.deeper_eq, Option.map_map] at hscan
    exact hscan

theorem exists_closes {depth : Nat} {inFirst : Bool} {s : Script} {b : Conditional}
    (h : scan? depth inFirst s = some b) :
    ∃ front, s = front ++ b.rest ∧ Closes depth inFirst front b.first b.second := by
  induction s generalizing depth inFirst b with
  | nil => simp [scan?] at h
  | cons c cs ih =>
    have keep : ∀ next, (∀ extra inBranch cs, scan? (depth + extra) inBranch (c :: cs) =
          (scan? (next + extra) inBranch cs).map (cons inBranch c)) →
        ∃ front, c :: cs = front ++ b.rest ∧ Closes depth inFirst front b.first b.second := by
      intro next hstep
      have hscan := hstep 0 inFirst cs
      rw [Nat.add_zero, Nat.add_zero, h] at hscan
      obtain ⟨b', hb', rfl⟩ := Option.map_eq_some_iff.mp hscan.symm
      obtain ⟨front, hcs, hcloses⟩ := ih hb'
      refine ⟨c :: front, ?_, hcloses.cons hstep⟩
      rw [rest_cons, List.cons_append, ← hcs]
    rcases c.cases_conditional with hopen | rfl | rfl | hplain
    · refine keep (depth + 1) fun extra inBranch cs => ?_
      rw [scan?_open hopen, Nat.add_right_comm]
    · cases depth with
      | zero =>
        rw [scan?_orElse_zero] at h
        obtain ⟨front, hcs, hcloses⟩ := ih h
        refine ⟨.op .orElse :: front, by rw [List.cons_append, ← hcs], ?_, ?_⟩
        · intro tail
          rw [List.cons_append, scan?_orElse_zero, hcloses.scan_eq]
        · intro outer inOuter tail
          have hdeep := hcloses.deeper_eq outer inOuter tail
          rw [show 0 + 1 + outer = outer + 1 by omega] at hdeep ⊢
          rw [List.cons_append, scan?_orElse_succ, hdeep, Option.map_map]
          rfl
      | succ depth =>
        refine keep (depth + 1) fun extra inBranch cs => ?_
        rw [Nat.add_right_comm, scan?_orElse_succ]
    · cases depth with
      | zero =>
        rw [scan?_endIf_zero] at h
        cases Option.some.inj h
        refine ⟨[.op .endIf], rfl, fun tail => scan?_endIf_zero, ?_⟩
        intro outer inOuter tail
        rw [show 0 + 1 + outer = outer + 1 by omega]
        exact scan?_endIf_succ
      | succ depth =>
        refine keep depth fun extra inBranch cs => ?_
        rw [Nat.add_right_comm, scan?_endIf_succ]
    · exact keep depth fun extra inBranch cs => scan?_plain hplain

theorem scan?_deeper_eq_none {depth : Nat} {inFirst : Bool} {s : Script}
    (h : scan? depth inFirst s = none) (outer : Nat) (inOuter : Bool) :
    scan? (depth + 1 + outer) inOuter s = none := by
  induction s generalizing depth inFirst with
  | nil => rfl
  | cons c cs ih =>
    rcases c.cases_conditional with hopen | rfl | rfl | hplain
    · rw [scan?_open hopen, Option.map_eq_none_iff] at h
      rw [scan?_open hopen, Option.map_eq_none_iff, Nat.add_right_comm]
      exact ih h
    · cases depth with
      | zero =>
        rw [scan?_orElse_zero] at h
        have hdeep := ih h
        rw [show 0 + 1 + outer = outer + 1 by omega] at hdeep ⊢
        rw [scan?_orElse_succ, hdeep]
        rfl
      | succ depth =>
        rw [scan?_orElse_succ, Option.map_eq_none_iff] at h
        rw [Nat.add_right_comm, scan?_orElse_succ, Option.map_eq_none_iff, Nat.add_right_comm]
        exact ih h
    · cases depth with
      | zero => simp [scan?_endIf_zero] at h
      | succ depth =>
        rw [scan?_endIf_succ, Option.map_eq_none_iff] at h
        have hdeep := ih h
        rw [Nat.add_right_comm, scan?_endIf_succ, Option.map_eq_none_iff]
        exact hdeep
    · rw [scan?_plain hplain, Option.map_eq_none_iff] at h
      rw [scan?_plain hplain, Option.map_eq_none_iff]
      exact ih h

theorem first_append_rest_sublist {depth : Nat} {inFirst : Bool} {s : Script} {b : Conditional}
    (h : scan? depth inFirst s = some b) : (b.first ++ b.rest).Sublist s := by
  induction s generalizing depth inFirst b with
  | nil => simp [scan?] at h
  | cons c cs ih =>
    have keep : ∀ {next : Nat}, (scan? next inFirst cs).map (cons inFirst c) = some b →
        (b.first ++ b.rest).Sublist (c :: cs) := by
      intro next hnext
      obtain ⟨b', hb', rfl⟩ := Option.map_eq_some_iff.mp hnext
      rw [first_cons, rest_cons]
      cases inFirst with
      | true => exact (ih hb').cons_cons c
      | false => exact (ih hb').cons c
    rcases c.cases_conditional with hopen | rfl | rfl | hplain
    · rw [scan?_open hopen] at h
      exact keep h
    · cases depth with
      | zero =>
        rw [scan?_orElse_zero] at h
        exact (ih h).cons _
      | succ depth =>
        rw [scan?_orElse_succ] at h
        exact keep h
    · cases depth with
      | zero =>
        rw [scan?_endIf_zero] at h
        cases Option.some.inj h
        exact (List.Sublist.refl cs).cons _
      | succ depth =>
        rw [scan?_endIf_succ] at h
        exact keep h
    · rw [scan?_plain hplain] at h
      exact keep h

theorem branch_append_rest_sublist (condition : Bool) {s : Script} {b : Conditional}
    (h : split? s = some b) : (b.branch condition ++ b.rest).Sublist s := by
  have hbranch := split?_branch condition s
  rw [h, Option.map_some] at hbranch
  obtain ⟨d, hd, heq⟩ := Option.map_eq_some_iff.mp hbranch.symm
  rw [← heq]
  exact first_append_rest_sublist hd

end Conditional

namespace Script

open Conditional

/-- What is left of a script inside open conditionals, the innermost first, whose conditions tell
whether the script goes on in the branch that they choose. A conditional in a branch that is not
chosen leaves nothing. -/
def residue : List Bool → Script → Option Script
  | [], s => some s
  | condition :: outer, s =>
    (scan? 0 condition s).bind fun b =>
      (residue outer b.rest).map fun q => (if outer.all id then b.first else []) ++ q

variable {condition : Bool} {conditions : List Bool} {c : Command} {cs : Script}

theorem residue_sublist {s q : Script} (h : residue conditions s = some q) : q.Sublist s := by
  induction conditions generalizing s q with
  | nil =>
    cases Option.some.inj h
    exact List.Sublist.refl s
  | cons condition outer ih =>
    rw [residue] at h
    obtain ⟨b, hb, hq⟩ := Option.bind_eq_some_iff.mp h
    obtain ⟨q', hq', rfl⟩ := Option.map_eq_some_iff.mp hq
    have hrest := ih hq'
    have hfirst := first_append_rest_sublist hb
    split
    · exact (hrest.append_left b.first).trans hfirst
    · exact hrest.trans ((List.sublist_append_right b.first b.rest).trans hfirst)

theorem residue_orElse :
    residue (condition :: conditions) (.op .orElse :: cs) =
      residue ((!condition) :: conditions) cs := by
  rw [residue, residue, scan?_orElse_zero]

theorem residue_endIf :
    residue (condition :: conditions) (.op .endIf :: cs) = residue conditions cs := by
  rw [residue, scan?_endIf_zero, Option.bind_some]
  simp

theorem residue_plain (conditions : List Bool) (cs : Script) (hc : c.IsPlain) :
    residue conditions (c :: cs) =
      (residue conditions cs).map fun q => if conditions.all id then c :: q else q := by
  cases conditions with
  | nil => rfl
  | cons condition outer =>
    rw [residue, residue, scan?_plain hc]
    cases hscan : scan? 0 condition cs with
    | none => rfl
    | some b =>
      simp only [Option.map_some, Option.bind_some, rest_cons, first_cons, Option.map_map]
      refine congrArg (Option.map · _) (funext fun q => ?_)
      cases condition <;> cases hall : outer.all id <;> simp [hall]

/-- A conditional in a branch that is not chosen counts as one whose condition fails. -/
theorem residue_open_skipped (hskip : conditions.all id = false) (hc : c.opensConditional = true) :
    residue conditions (c :: cs) = residue (false :: conditions) cs := by
  cases conditions with
  | nil => simp at hskip
  | cons condition outer =>
    rw [residue, residue, scan?_open hc, hskip]
    cases hscan : scan? 0 false cs with
    | none => rw [scan?_deeper_eq_none hscan 0]; rfl
    | some b =>
      obtain ⟨front, hcs, hcloses⟩ := exists_closes hscan
      have hdeep := hcloses.deeper_eq 0 condition b.rest
      rw [← hcs] at hdeep
      rw [hdeep, Option.bind_some, residue]
      cases hrest : scan? 0 condition b.rest with
      | none => rfl
      | some d =>
        simp only [Option.map_some, Option.bind_some, rest_cons, rest_foldr_cons, first_cons,
          first_foldr_cons, Option.map_map]
        refine congrArg (Option.map · _) (funext fun q => ?_)
        cases condition <;> cases hall : outer.all id <;> simp_all

/-- A conditional in a branch that is chosen is kept. Cutting it out of what is left is the same as
choosing its branch before. -/
theorem residue_open (cs : Script) (hactive : conditions.all id = true)
    (hc : c.opensConditional = true) :
    ∃ kept : Option Script, residue conditions (c :: cs) = kept.map (c :: ·) ∧
      ∀ condition, residue (condition :: conditions) cs =
        kept.bind fun q => (split? q).map fun b => b.branch condition ++ b.rest := by
  cases conditions with
  | nil =>
    refine ⟨some cs, rfl, fun condition => ?_⟩
    rw [Option.bind_some, split?_branch, residue]
    cases scan? 0 condition cs <;> rfl
  | cons condition outer =>
    obtain ⟨rfl, houter⟩ : condition = true ∧ outer.all id = true := by simpa using hactive
    refine ⟨(scan? 1 true cs).bind fun b => (residue outer b.rest).map (b.first ++ ·), ?_, ?_⟩
    · rw [residue, scan?_open hc]
      cases scan? 1 true cs with
      | none => rfl
      | some b => simp [first_cons, houter, Function.comp_def]
    · intro condition
      simp only [split?_branch]
      rw [residue, hactive]
      cases hscan : scan? 0 condition cs with
      | none => rw [scan?_deeper_eq_none hscan 0]; rfl
      | some b =>
        obtain ⟨front, hcs, hcloses⟩ := exists_closes hscan
        have hdeep := hcloses.deeper_eq 0 true b.rest
        rw [← hcs] at hdeep
        rw [hdeep, Option.bind_some, residue, houter]
        cases hrest : scan? 0 true b.rest with
        | none => rfl
        | some d =>
          cases hout : residue outer d.rest with
          | none => simp [hout]
          | some q =>
            have hkept := hcloses.scan_eq (d.first ++ q)
            simp [hout, first_foldr_cons, hkept]

end Script

end BitcoinSpend

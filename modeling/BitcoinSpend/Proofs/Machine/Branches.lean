import BitcoinSpend.Machine.Step
import BitcoinSpend.Proofs.Machine.Balance
import BitcoinSpend.Proofs.Machine.Residue

namespace BitcoinSpend

theorem Command.ne_of_opensConditional {c : Command} (h : c.opensConditional = true) :
    c ≠ .op .orElse ∧ c ≠ .op .endIf := by
  constructor
  · intro hc
    subst hc
    cases h
  · intro hc
    subst hc
    cases h

namespace Script

/-- A branch of a conditional ends what it opens, and no more. An alternative in it belongs to a
conditional that it has opened. -/
structure IsBranch (s : Script) : Prop where
  balanced : Balanced s
  inside : ∀ p : Script, p ++ [.op .orElse] <+: s → p.endings < p.openings

/-- What is left of a branch inside so many conditionals that it has opened. -/
structure Finishes (depth : Nat) (s : Script) : Prop where
  endings_le : ∀ p : Script, p <+: s → p.endings ≤ depth + p.openings
  inside : ∀ p : Script, p ++ [.op .orElse] <+: s → p.endings < depth + p.openings
  endings_eq : s.endings = depth + s.openings

theorem finishes_zero_iff {s : Script} : Finishes 0 s ↔ s.IsBranch := by
  constructor
  · intro h
    refine ⟨⟨fun p hp => ?_, ?_⟩, fun p hp => ?_⟩
    · have hle := h.endings_le p hp
      omega
    · have heq := h.endings_eq
      omega
    · have hlt := h.inside p hp
      omega
  · intro h
    refine ⟨fun p hp => ?_, fun p hp => ?_, ?_⟩
    · have hle := h.balanced.endings_le p hp
      omega
    · have hlt := h.inside p hp
      omega
    · have heq := h.balanced.endings_eq
      omega

theorem finishes_nil_iff {depth : Nat} : Finishes depth [] ↔ depth = 0 := by
  constructor
  · intro h
    have heq := h.endings_eq
    simp only [endings_nil, openings_nil] at heq
    omega
  · intro h
    subst h
    refine ⟨fun p hp => ?_, fun p hp => ?_, rfl⟩
    · rw [List.prefix_nil.mp hp]
      exact Nat.le_refl _
    · simp at hp

/-- A command takes the rest of a branch from one depth to the next. -/
theorem finishes_cons_iff {depth next : Nat} {c : Command} {s : Script}
    (hstep : depth + openings [c] = next + endings [c]) (helse : c = .op .orElse → 0 < depth) :
    Finishes depth (c :: s) ↔ Finishes next s := by
  have hend : ∀ p : Script, endings (c :: p) = endings [c] + endings p := fun p =>
    endings_append [c] p
  have hopen : ∀ p : Script, openings (c :: p) = openings [c] + openings p := fun p =>
    openings_append [c] p
  constructor
  · intro h
    refine ⟨fun p hp => ?_, fun p hp => ?_, ?_⟩
    · have hle := h.endings_le (c :: p) (List.cons_prefix_cons.mpr ⟨rfl, hp⟩)
      rw [hend, hopen] at hle
      omega
    · have hlt := h.inside (c :: p) (List.cons_prefix_cons.mpr ⟨rfl, hp⟩)
      rw [hend, hopen] at hlt
      omega
    · have heq := h.endings_eq
      rw [hend, hopen] at heq
      omega
  · intro h
    refine ⟨fun p hp => ?_, fun p hp => ?_, ?_⟩
    · rcases List.prefix_cons_iff.mp hp with rfl | ⟨front, rfl, hfront⟩
      · exact Nat.zero_le _
      · have hle := h.endings_le front hfront
        rw [hend, hopen]
        omega
    · cases p with
      | nil => exact helse (List.cons_prefix_cons.mp hp).1.symm
      | cons c' front =>
        obtain ⟨rfl, hfront⟩ := List.cons_prefix_cons.mp hp
        have hlt := h.inside front hfront
        rw [hend, hopen]
        omega
    · have heq := h.endings_eq
      rw [hend, hopen]
      omega

theorem IsBranch.append {s t : Script} (hs : s.IsBranch) (ht : t.IsBranch) : (s ++ t).IsBranch := by
  refine ⟨hs.balanced.append ht.balanced, fun p hp => ?_⟩
  rcases List.prefix_or_prefix_of_prefix hp (List.prefix_append s t) with hfront | ⟨u, hu⟩
  · exact hs.inside p hfront
  · cases List.eq_nil_or_concat u with
    | inl hnil =>
      subst hnil
      rw [List.append_nil] at hu
      exact hs.inside p (hu ▸ List.prefix_rfl)
    | inr hconcat =>
      obtain ⟨front, c, rfl⟩ := hconcat
      rw [List.concat_eq_append, ← List.append_assoc] at hu
      obtain ⟨rfl, _⟩ := List.append_inj' hu rfl
      rw [List.append_assoc] at hp
      have hlt := ht.inside front ((List.prefix_append_right_inj s).mp hp)
      have heq := hs.balanced.endings_eq
      rw [endings_append, openings_append]
      omega

/-- Every other one of the scripts, one behind the other, with the first of them or without it. -/
def everyOther : Bool → List Script → Script
  | _, [] => []
  | true, b :: bs => b ++ everyOther false bs
  | false, _ :: bs => everyOther true bs

theorem isBranch_everyOther (withFirst : Bool) {bs : List Script} (h : ∀ b ∈ bs, b.IsBranch) :
    (everyOther withFirst bs).IsBranch := by
  induction bs generalizing withFirst with
  | nil => exact finishes_zero_iff.mp (finishes_nil_iff.mpr rfl)
  | cons b bs ih =>
    obtain ⟨hb, hbs⟩ := List.forall_mem_cons.mp h
    cases withFirst with
    | true => exact hb.append (ih false hbs)
    | false => exact ih true hbs

theorem everyOther_append_perm (bs : List Script) :
    (everyOther true bs ++ everyOther false bs).Perm bs.flatten := by
  induction bs with
  | nil => exact .refl []
  | cons b bs ih =>
    simp only [everyOther, List.flatten_cons, List.append_assoc]
    exact (List.perm_append_comm.trans ih).append_left b

end Script

namespace Conditional

open Script

/-- Branches with an alternative between each two of them, the end, and what follows it. -/
def joined (b : Script) : List Script → Script → Script
  | [], rest => b ++ .op .endIf :: rest
  | b' :: bs, rest => b ++ .op .orElse :: joined b' bs rest

theorem joined_cons (c : Command) (b : Script) (bs : List Script) (rest : Script) :
    joined (c :: b) bs rest = c :: joined b bs rest := by
  cases bs <;> rfl

theorem joined_perm (b : Script) (bs : List Script) (rest : Script) :
    (joined b bs rest).Perm ((b :: bs).flatten ++ List.replicate bs.length (.op .orElse) ++
      .op .endIf :: rest) := by
  induction bs generalizing b with
  | nil => simp [joined]
  | cons b' bs ih =>
    have htail := (ih b').cons (.op .orElse)
    rw [List.append_assoc] at htail
    have hmoved := htail.trans List.perm_middle.symm
    rw [List.flatten_cons, List.append_assoc, List.append_assoc]
    exact hmoved.append_left b

/-- A queue is a conditional behind its opening, with certain branches and what follows. -/
structure Branches (q b : Script) (bs : List Script) (rest : Script) : Prop where
  isBranch : ∀ b' ∈ b :: bs, b'.IsBranch
  eq_joined : q = joined b bs rest

/-- The first branch gets every other one of the branches, and the second one those between them. -/
def ofBranches (inFirst : Bool) (bs : List Script) (rest : Script) : Conditional :=
  ⟨everyOther inFirst bs, everyOther (!inFirst) bs, rest⟩

theorem cons_ofBranches (inFirst : Bool) (c : Command) (b : Script) (bs : List Script)
    (rest : Script) : cons inFirst c (ofBranches inFirst (b :: bs) rest) =
      ofBranches inFirst ((c :: b) :: bs) rest := by
  cases inFirst <;> rfl

theorem ofBranches_nil_cons (inFirst : Bool) (bs : List Script) (rest : Script) :
    ofBranches inFirst ([] :: bs) rest = ofBranches (!inFirst) bs rest := by
  cases inFirst <;> rfl

section

variable {depth next : Nat} {inFirst : Bool} {c : Command} {q cs : Script} {d : Conditional}

/-- Inside the branch that is scanned, a queue goes on with the rest of that branch. -/
def Scans (depth : Nat) (inFirst : Bool) (q : Script) (d : Conditional) : Prop :=
  ∃ b bs rest, Finishes depth b ∧ (∀ b' ∈ bs, b'.IsBranch) ∧ q = joined b bs rest ∧
    d = ofBranches inFirst (b :: bs) rest

theorem scans_cons_iff (hfinishes : ∀ s, Finishes depth (c :: s) ↔ Finishes next s)
    (hc : depth = 0 → c ≠ .op .orElse ∧ c ≠ .op .endIf) :
    Scans depth inFirst (c :: cs) d ↔ ∃ d', Scans next inFirst cs d' ∧ cons inFirst c d' = d := by
  constructor
  · intro h
    obtain ⟨b, bs, rest, hb, hbs, hq, rfl⟩ := h
    cases b with
    | nil =>
      obtain ⟨helse, hend⟩ := hc (finishes_nil_iff.mp hb)
      cases bs with
      | nil => exact absurd (List.cons.inj hq).1 hend
      | cons b bs => exact absurd (List.cons.inj hq).1 helse
    | cons c' b =>
      rw [joined_cons] at hq
      obtain ⟨rfl, rfl⟩ := List.cons.inj hq
      exact ⟨_, ⟨b, bs, rest, (hfinishes b).mp hb, hbs, rfl, rfl⟩, cons_ofBranches _ _ _ _ _⟩
  · intro h
    obtain ⟨_, ⟨b, bs, rest, hb, hbs, rfl, rfl⟩, rfl⟩ := h
    exact ⟨c :: b, bs, rest, (hfinishes b).mpr hb, hbs, (joined_cons c b bs rest).symm,
      cons_ofBranches _ _ _ _ _⟩

theorem scans_orElse_zero_iff :
    Scans 0 inFirst (.op .orElse :: cs) d ↔ Scans 0 (!inFirst) cs d := by
  constructor
  · intro h
    obtain ⟨b, bs, rest, hb, hbs, hq, rfl⟩ := h
    cases b with
    | nil =>
      cases bs with
      | nil => cases (List.cons.inj hq).1
      | cons b bs =>
        obtain ⟨hb, hbs⟩ := List.forall_mem_cons.mp hbs
        exact ⟨b, bs, rest, finishes_zero_iff.mpr hb, hbs, (List.cons.inj hq).2,
          ofBranches_nil_cons _ _ _⟩
    | cons c b =>
      rw [joined_cons] at hq
      obtain ⟨rfl, rfl⟩ := List.cons.inj hq
      have hpos := hb.inside [] (List.cons_prefix_cons.mpr ⟨rfl, List.nil_prefix⟩)
      cases hpos
  · intro h
    obtain ⟨b, bs, rest, hb, hbs, rfl, rfl⟩ := h
    exact ⟨[], b :: bs, rest, finishes_nil_iff.mpr rfl,
      List.forall_mem_cons.mpr ⟨finishes_zero_iff.mp hb, hbs⟩, rfl,
      (ofBranches_nil_cons _ _ _).symm⟩

theorem scans_endIf_zero_iff : Scans 0 inFirst (.op .endIf :: cs) d ↔ ⟨[], [], cs⟩ = d := by
  have hnil : ofBranches inFirst [[]] cs = ⟨[], [], cs⟩ := by cases inFirst <;> rfl
  constructor
  · intro h
    obtain ⟨b, bs, rest, hb, hbs, hq, rfl⟩ := h
    cases b with
    | nil =>
      cases bs with
      | nil =>
        obtain ⟨_, rfl⟩ := List.cons.inj hq
        exact hnil.symm
      | cons b bs => cases (List.cons.inj hq).1
    | cons c b =>
      rw [joined_cons] at hq
      obtain ⟨rfl, rfl⟩ := List.cons.inj hq
      have hle := hb.endings_le [.op .endIf] (List.cons_prefix_cons.mpr ⟨rfl, List.nil_prefix⟩)
      cases hle
  · intro h
    subst h
    exact ⟨[], [], cs, finishes_nil_iff.mpr rfl, by simp, rfl, hnil.symm⟩

theorem scan?_eq_some_iff : scan? depth inFirst q = some d ↔ Scans depth inFirst q d := by
  induction q generalizing depth inFirst d with
  | nil =>
    constructor
    · intro h
      cases h
    · intro h
      obtain ⟨b, bs, rest, _, _, hq, _⟩ := h
      cases bs <;> simp [joined] at hq
  | cons c cs ih =>
    have keep : ∀ {next : Nat},
        scan? depth inFirst (c :: cs) = (scan? next inFirst cs).map (cons inFirst c) →
        (∀ s, Finishes depth (c :: s) ↔ Finishes next s) →
        (depth = 0 → c ≠ .op .orElse ∧ c ≠ .op .endIf) →
        (scan? depth inFirst (c :: cs) = some d ↔ Scans depth inFirst (c :: cs) d) := by
      intro next hscan hfinishes hc
      rw [hscan, Option.map_eq_some_iff, scans_cons_iff hfinishes hc]
      exact exists_congr fun d' => and_congr_left fun _ => ih
    rcases c.cases_conditional with hopen | rfl | rfl | hplain
    · obtain ⟨helse, hend⟩ := Command.ne_of_opensConditional hopen
      refine keep (scan?_open hopen) (fun s => ?_) fun _ => ⟨helse, hend⟩
      exact finishes_cons_iff (by simp [hopen, hend]) (absurd · helse)
    · cases depth with
      | zero => rw [scan?_orElse_zero, scans_orElse_zero_iff, ih]
      | succ depth =>
        refine keep scan?_orElse_succ (fun s => ?_) fun h => absurd h (Nat.succ_ne_zero depth)
        exact finishes_cons_iff rfl fun _ => Nat.succ_pos depth
    · cases depth with
      | zero => rw [scan?_endIf_zero, scans_endIf_zero_iff, Option.some.injEq]
      | succ depth =>
        refine keep scan?_endIf_succ (fun s => ?_) fun h => absurd h (Nat.succ_ne_zero depth)
        exact finishes_cons_iff rfl fun _ => Nat.succ_pos depth
    · refine keep (scan?_plain hplain) (fun s => ?_) fun _ => ⟨hplain.ne_orElse, hplain.ne_endIf⟩
      exact finishes_cons_iff (by simp [hplain.opens, hplain.ne_endIf])
        (absurd · hplain.ne_orElse)

end

end Conditional

namespace Script

variable {b b' : Script}

/-- An alternative or an end behind a branch does not belong to the branch. -/
theorem IsBranch.not_prefix {c : Command} (hb : b.IsBranch) (hb' : b'.IsBranch)
    (hc : c = .op .orElse ∨ c = .op .endIf) : ¬b ++ [c] <+: b' := by
  intro hprefix
  have heq := hb.balanced.endings_eq
  rcases hc with rfl | rfl
  · have hlt := hb'.inside b hprefix
    omega
  · have hle := hb'.balanced.endings_le _ hprefix
    rw [endings_append, openings_append] at hle
    have hend : endings [.op .endIf] = 1 := rfl
    have hopen : openings [.op .endIf] = 0 := rfl
    omega

theorem IsBranch.append_inj {c c' : Command} {t t' : Script} (hb : b.IsBranch) (hb' : b'.IsBranch)
    (hc : c = .op .orElse ∨ c = .op .endIf) (hc' : c' = .op .orElse ∨ c' = .op .endIf)
    (h : b ++ c :: t = b' ++ c' :: t') : b = b' ∧ c = c' ∧ t = t' := by
  rcases List.append_eq_append_iff.mp h with ⟨u, rfl, hu⟩ | ⟨u, rfl, hu⟩
  · cases u with
    | nil =>
      obtain ⟨rfl, rfl⟩ := List.cons.inj hu
      exact ⟨(List.append_nil b).symm, rfl, rfl⟩
    | cons x u =>
      obtain ⟨rfl, _⟩ := List.cons.inj hu
      exact absurd ⟨u, by simp⟩ (hb.not_prefix hb' hc)
  · cases u with
    | nil =>
      obtain ⟨rfl, rfl⟩ := List.cons.inj hu
      exact ⟨List.append_nil b', rfl, rfl⟩
    | cons x u =>
      obtain ⟨rfl, _⟩ := List.cons.inj hu
      exact absurd ⟨u, by simp⟩ (hb'.not_prefix hb hc')

end Script

namespace Conditional

open Script

theorem joined_inj {b b' rest rest' : Script} {bs bs' : List Script}
    (hbs : ∀ x ∈ b :: bs, x.IsBranch) (hbs' : ∀ x ∈ b' :: bs', x.IsBranch)
    (h : joined b bs rest = joined b' bs' rest') : b = b' ∧ bs = bs' ∧ rest = rest' := by
  induction bs generalizing b b' bs' with
  | nil =>
    have hb := hbs b List.mem_cons_self
    have hb' := hbs' b' List.mem_cons_self
    cases bs' with
    | nil =>
      obtain ⟨rfl, _, rfl⟩ := hb.append_inj hb' (.inr rfl) (.inr rfl) h
      exact ⟨rfl, rfl, rfl⟩
    | cons x' bs' =>
      obtain ⟨_, hc, _⟩ := hb.append_inj hb' (.inr rfl) (.inl rfl) h
      cases hc
  | cons x bs ih =>
    obtain ⟨hb, htail⟩ := List.forall_mem_cons.mp hbs
    obtain ⟨hb', htail'⟩ := List.forall_mem_cons.mp hbs'
    cases bs' with
    | nil =>
      obtain ⟨_, hc, _⟩ := hb.append_inj hb' (.inl rfl) (.inr rfl) h
      cases hc
    | cons x' bs' =>
      obtain ⟨rfl, _, ht⟩ := hb.append_inj hb' (.inl rfl) (.inl rfl) h
      obtain ⟨rfl, rfl, rfl⟩ := ih htail htail' ht
      exact ⟨rfl, rfl, rfl⟩

variable {q : Script} {d : Conditional}

theorem split?_eq_some_iff : split? q = some d ↔ ∃ b bs rest, Branches q b bs rest ∧
    d = ⟨everyOther true (b :: bs), everyOther false (b :: bs), rest⟩ := by
  rw [split?, scan?_eq_some_iff]
  constructor
  · intro h
    obtain ⟨b, bs, rest, hb, hbs, hq, hd⟩ := h
    exact ⟨b, bs, rest, ⟨List.forall_mem_cons.mpr ⟨finishes_zero_iff.mp hb, hbs⟩, hq⟩, hd⟩
  · intro h
    obtain ⟨b, bs, rest, ⟨hbranches, hq⟩, hd⟩ := h
    obtain ⟨hb, hbs⟩ := List.forall_mem_cons.mp hbranches
    exact ⟨b, bs, rest, finishes_zero_iff.mpr hb, hbs, hq, hd⟩

theorem runConditional_eq_unbalanced_iff {negated : Bool} {top : Bytes} {stack alt : Stack} :
    State.runConditional negated ⟨q, top :: stack, alt⟩ =
      .error (.failed .unbalancedConditional stack) ↔ split? q = none := by
  simp only [State.runConditional]
  cases split? q <;> simp

/-- Behind its opening a conditional has branches with an alternative between each two of them, and
an end. A queue is cut just if it is of this form, which it is in one way at most. The first branch
gets every other one of the branches, the second one those between them, and both are branches
again. No command is lost or comes twice, and none changes its place within its branch. A queue of
another form fails as unbalanced. -/
theorem split?_iff_branches (q : Script) :
    (∀ d, split? q = some d ↔ ∃ b bs rest, Branches q b bs rest ∧
      d = ⟨everyOther true (b :: bs), everyOther false (b :: bs), rest⟩) ∧
    (∀ b bs rest b' bs' rest', Branches q b bs rest → Branches q b' bs' rest' →
      b = b' ∧ bs = bs' ∧ rest = rest') ∧
    (∀ d, split? q = some d → d.first.IsBranch ∧ d.second.IsBranch ∧
      (∀ condition, (d.branch condition ++ d.rest).Sublist q) ∧
      ∃ alternatives, q.Perm (d.first ++ d.second ++
        List.replicate alternatives (.op .orElse) ++ .op .endIf :: d.rest)) ∧
    ∀ negated top stack alt, State.runConditional negated ⟨q, top :: stack, alt⟩ =
      .error (.failed .unbalancedConditional stack) ↔ ¬∃ b bs rest, Branches q b bs rest := by
  refine ⟨fun d => split?_eq_some_iff, fun b bs rest b' bs' rest' h h' => ?_, fun d hd => ?_,
    fun negated top stack alt => ?_⟩
  · exact joined_inj h.isBranch h'.isBranch (h.eq_joined.symm.trans h'.eq_joined)
  · have hsublist := fun condition => branch_append_rest_sublist condition hd
    obtain ⟨b, bs, rest, h, rfl⟩ := split?_eq_some_iff.mp hd
    refine ⟨isBranch_everyOther true h.isBranch, isBranch_everyOther false h.isBranch, hsublist,
      bs.length, ?_⟩
    have hflatten := (everyOther_append_perm (b :: bs)).symm
    rw [h.eq_joined]
    exact (joined_perm b bs rest).trans ((hflatten.append_right _).append_right _)
  · rw [runConditional_eq_unbalanced_iff, Option.eq_none_iff_forall_ne_some]
    constructor
    · intro h hbranches
      obtain ⟨b, bs, rest, hbranches⟩ := hbranches
      exact h _ (split?_eq_some_iff.mpr ⟨b, bs, rest, hbranches, rfl⟩)
    · intro h d hd
      obtain ⟨b, bs, rest, hbranches, _⟩ := split?_eq_some_iff.mp hd
      exact h ⟨b, bs, rest, hbranches⟩

/-- Three branches, the first of which holds a conditional with an alternative of its own, and one
command behind them. -/
def threeBranches : Script :=
  [.op .pushOne, .op .ifTrue, .op .dup, .op .orElse, .op .verify, .op .endIf, .op .orElse,
    .op .equal, .op .orElse, .op .checkSig, .op .endIf, .op .hash160]

theorem threeBranches_split : ∃ b bs, Branches threeBranches b bs [.op .hash160] ∧
    (∀ b' bs' rest', Branches threeBranches b' bs' rest' → bs' = bs) ∧
    everyOther true (b :: bs) = [.op .pushOne, .op .ifTrue, .op .dup, .op .orElse, .op .verify,
      .op .endIf, .op .checkSig] ∧
    everyOther false (b :: bs) = [.op .equal] ∧ (everyOther true (b :: bs)).IsBranch := by
  obtain ⟨hsplit, hunique, hkept, _⟩ := split?_iff_branches threeBranches
  have hd : split? threeBranches = some ⟨[.op .pushOne, .op .ifTrue, .op .dup, .op .orElse,
    .op .verify, .op .endIf, .op .checkSig], [.op .equal], [.op .hash160]⟩ := by decide
  obtain ⟨b, bs, rest, hbranches, heq⟩ := (hsplit _).mp hd
  obtain ⟨hfirst, hsecond, rfl⟩ := Conditional.mk.inj heq
  refine ⟨b, bs, hbranches, fun b' bs' rest' h => (hunique _ _ _ _ _ _ h hbranches).2.1,
    hfirst.symm, hsecond.symm, ?_⟩
  rw [← hfirst]
  exact (hkept _ hd).1

end Conditional

end BitcoinSpend

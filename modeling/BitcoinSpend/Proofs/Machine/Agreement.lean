import BitcoinSpend.Curve.Ecdsa
import BitcoinSpend.Proofs.Machine.Walk

namespace BitcoinSpend

/-- A walk that is about to go through the rest of a script and the queue that holds the residue of
that rest end alike. Without a residue, when a conditional stays open, the walk fails. -/
structure Walk.Agrees (ctx : Context) (cs : Script) (w : Walk) : Prop where
  run_eq_none : cs.residue w.conditions = none → w.run ctx cs = none
  endsAs : ∀ q, cs.residue w.conditions = some q →
    (⟨q, w.stack, w.alt⟩ : State).EndsAs ctx (w.run ctx cs)

namespace Walk

variable {ctx : Context} {w : Walk} {c : Command} {cs q : Script}

theorem run_eq_none_of_runCommand (h : w.runCommand ctx c = none) : w.run ctx (c :: cs) = none := by
  rw [run, step, h]
  rfl

theorem Agrees.of_runCommand (w' : Walk) (hrun : w.runCommand ctx c = some w')
    (hstack : w'.stack = w.stack) (halt : w'.alt = w.alt)
    (hsize : w.stack.length + w.alt.length ≤ maxStackSize)
    (hres : Script.residue w.conditions (c :: cs) = Script.residue w'.conditions cs)
    (h : w'.Agrees ctx cs) : w.Agrees ctx (c :: cs) := by
  have hstep : w.step ctx c = some w' := by
    rw [step, hrun]
    exact checkSize_of_le (by rw [hstack, halt]; exact hsize)
  have hnext : w.run ctx (c :: cs) = w'.run ctx cs := by
    rw [run, hstep, Option.bind_some]
  refine ⟨?_, ?_⟩
  · intro hnone
    rw [hnext]
    exact h.run_eq_none (hres ▸ hnone)
  · intro q hq
    rw [hnext, ← hstack, ← halt]
    exact h.endsAs q (hres ▸ hq)

theorem agrees_of_misplaced {code : Opcode} (hconds : w.conditions = [])
    (hcode : code.instruction = .invalid .unbalancedConditional)
    (hrun : w.runCommand ctx (.op code) = none) : w.Agrees ctx (.op code :: cs) := by
  have hnone : w.run ctx (.op code :: cs) = none := run_eq_none_of_runCommand hrun
  refine ⟨fun _ => hnone, ?_⟩
  intro q hq
  rw [hconds] at hq
  cases Option.some.inj hq
  rw [hnone]
  refine State.endsAs_of_failed .unbalancedConditional w.stack ?_
  simp only [State.step, State.runCommand, hcode]
  rfl

theorem agrees_open_skipped (hskip : w.isActive = false) (hc : c.opensConditional = true)
    (hsize : w.stack.length + w.alt.length ≤ maxStackSize)
    (h : Agrees ctx cs { w with conditions := false :: w.conditions }) :
    w.Agrees ctx (c :: cs) := by
  obtain ⟨_, negated, _, _, hrun⟩ := runCommand_open ctx w hc
  refine .of_runCommand { w with conditions := false :: w.conditions } ?_ rfl rfl hsize ?_ h
  · rw [hrun, openConditional, hskip]
    rfl
  · exact Script.residue_open_skipped hskip hc

theorem agrees_open (hactive : w.isActive = true) (hc : c.opensConditional = true)
    (hsize : w.stack.length + w.alt.length ≤ maxStackSize)
    (h : ∀ condition top stack, w.stack = top :: stack →
      Agrees ctx cs ⟨condition :: w.conditions, stack, w.alt⟩) :
    w.Agrees ctx (c :: cs) := by
  obtain ⟨code, negated, rfl, hcode, hrun⟩ := runCommand_open ctx w hc
  obtain ⟨kept, hkept, hchosen⟩ := Script.residue_open cs hactive hc
  rw [openConditional, if_pos hactive] at hrun
  cases hst : w.stack with
  | nil =>
    rw [hst] at hrun
    have hnone : w.run ctx (.op code :: cs) = none := run_eq_none_of_runCommand hrun
    refine ⟨fun _ => hnone, ?_⟩
    intro q hq
    rw [hkept] at hq
    obtain ⟨q', _, rfl⟩ := Option.map_eq_some_iff.mp hq
    rw [hnone, hst]
    refine State.endsAs_of_failed (.stack .invalidOperation) [] ?_
    simp only [State.step, State.runCommand, hcode]
    rfl
  | cons top stack =>
    rw [hst] at hrun hsize
    rw [List.length_cons] at hsize
    have hagrees := h (Number.isTrue top != negated) top stack hst
    have hres := hchosen (Number.isTrue top != negated)
    have hsmall : stack.length + w.alt.length ≤ maxStackSize := by omega
    have hnext : w.run ctx (.op code :: cs) =
        run ctx cs ⟨(Number.isTrue top != negated) :: w.conditions, stack, w.alt⟩ := by
      rw [run, step, hrun, Option.bind_some, checkSize_of_le hsmall, Option.bind_some]
    refine ⟨?_, ?_⟩
    · intro hnone
      rw [hkept, Option.map_eq_none_iff] at hnone
      rw [hnone, Option.bind_none] at hres
      rw [hnext]
      exact hagrees.run_eq_none hres
    · intro q hq
      rw [hkept] at hq
      obtain ⟨q', hq', rfl⟩ := Option.map_eq_some_iff.mp hq
      rw [hq', Option.bind_some] at hres
      rw [hnext, hst]
      cases hb : Conditional.split? q' with
      | none =>
        rw [hb, Option.map_none] at hres
        rw [hagrees.run_eq_none hres]
        refine State.endsAs_of_failed .unbalancedConditional stack ?_
        simp only [State.step, State.runCommand, hcode, State.runInstruction, State.runConditional,
          hb]
        rfl
      | some b =>
        rw [hb, Option.map_some] at hres
        have hlen := (Conditional.branch_append_rest_sublist
          (Number.isTrue top != negated) hb).length_le
        refine .of_step ?_ ?_ (hagrees.endsAs _ hres)
        · refine State.step_eq_ok_iff.mpr ⟨?_, hsmall⟩
          simp only [State.runCommand, hcode, State.runInstruction, State.runConditional, hb]
        · simp only [List.length_cons]
          omega

theorem agrees_plain (hc : c.IsPlain) (hfree : Script.HashFree (c :: cs))
    (hsize : w.stack.length + w.alt.length ≤ maxStackSize)
    (h : ∀ w' : Walk, w'.conditions = w.conditions →
      w'.stack.length + w'.alt.length ≤ maxStackSize → w'.Agrees ctx cs) :
    w.Agrees ctx (c :: cs) := by
  have hres := Script.residue_plain w.conditions cs hc
  have hrun := runCommand_plain ctx w hc
  cases hactive : w.isActive with
  | false =>
    have hall : w.conditions.all id = false := hactive
    rw [hactive] at hrun
    refine .of_runCommand w hrun rfl rfl hsize ?_ (h w rfl hsize)
    rw [hres, hall]
    simp
  | true =>
    have hall : w.conditions.all id = true := hactive
    rw [hactive, if_pos rfl] at hrun
    rw [hall] at hres
    have hnext : ∀ {w'}, w.step ctx c = some w' → w'.Agrees ctx cs ∧
        w'.conditions = w.conditions := by
      intro w' hstep
      rw [step, hrun] at hstep
      obtain ⟨w₁, hplain, hcheck⟩ := Option.bind_eq_some_iff.mp hstep
      obtain ⟨rfl, hsmall⟩ := checkSize_eq_some hcheck
      have hconds := conditions_of_runPlain hplain
      exact ⟨h _ hconds hsmall, hconds⟩
    refine ⟨?_, ?_⟩
    · intro hnone
      rw [hres, Option.map_eq_none_iff] at hnone
      rw [run]
      cases hstep : w.step ctx c with
      | none => rfl
      | some w' =>
        obtain ⟨hagrees, hconds⟩ := hnext hstep
        exact hagrees.run_eq_none (hconds ▸ hnone)
    · intro q hq
      rw [hres] at hq
      obtain ⟨q', hq', rfl⟩ := Option.map_eq_some_iff.mp hq
      rw [if_pos rfl]
      have hfree' : Script.HashFree (c :: q') :=
        hfree.sublist ((Script.residue_sublist hq').cons_cons c)
      have hfollows := (runPlain_follows ctx hc hfree' w).checkSize
      rw [← hrun] at hfollows
      rw [run]
      change Follows q' ((⟨c :: q', w.stack, w.alt⟩ : State).step ctx) (w.step ctx c) at hfollows
      generalize hs : (⟨c :: q', w.stack, w.alt⟩ : State).step ctx = r at hfollows
      generalize hn : w.step ctx c = next at hfollows hnext
      cases hfollows with
      | fails reason stack => exact State.endsAs_of_failed reason stack hs
      | goes w' =>
        obtain ⟨hagrees, hconds⟩ := hnext rfl
        exact .of_step hs (by simp) (hagrees.endsAs q' (hconds ▸ hq'))

/-- Wherever a walk stands in a script, the queue that holds what is left of the script ends as the
walk does. -/
theorem agrees (hfree : cs.HashFree) (hsize : w.stack.length + w.alt.length ≤ maxStackSize) :
    w.Agrees ctx cs := by
  -- The walk goes forward command by command; the queue stands still where it passes over one.
  induction cs generalizing w with
  | nil =>
    cases hconds : w.conditions with
    | nil =>
      have hrun : w.run ctx [] = some w.stack := by rw [run, hconds]; rfl
      refine ⟨fun hnone => by rw [hconds] at hnone; simp [Script.residue] at hnone, ?_⟩
      intro q hq
      rw [hconds] at hq
      cases Option.some.inj hq
      rw [hrun]
      exact State.endsAs_nil w.stack w.alt
    | cons condition outer =>
      have hrun : w.run ctx [] = none := by rw [run, hconds]; rfl
      refine ⟨fun _ => hrun, ?_⟩
      intro q hq
      rw [hconds] at hq
      simp [Script.residue, Conditional.scan?] at hq
  | cons c cs ih =>
    have hrest : Script.HashFree cs := hfree.sublist (List.sublist_cons_self c cs)
    rcases c.cases_conditional with hopen | rfl | rfl | hplain
    · cases hactive : w.isActive with
      | false => exact agrees_open_skipped hactive hopen hsize (ih hrest hsize)
      | true =>
        refine agrees_open hactive hopen hsize fun condition top stack hst => ih hrest ?_
        rw [hst, List.length_cons] at hsize
        show stack.length + w.alt.length ≤ maxStackSize
        omega
    · cases hconds : w.conditions with
      | nil =>
        exact agrees_of_misplaced hconds rfl (by rw [runCommand_orElse, flipCondition, hconds])
      | cons condition outer =>
        refine .of_runCommand { w with conditions := (!condition) :: outer } ?_ rfl rfl hsize
          ?_ (ih hrest hsize)
        · rw [runCommand_orElse, flipCondition, hconds]
        · rw [hconds]
          exact Script.residue_orElse
    · cases hconds : w.conditions with
      | nil =>
        exact agrees_of_misplaced hconds rfl (by rw [runCommand_endIf, closeConditional, hconds])
      | cons condition outer =>
        refine .of_runCommand { w with conditions := outer } ?_ rfl rfl hsize ?_
          (ih hrest hsize)
        · rw [runCommand_endIf, closeConditional, hconds]
        · rw [hconds]
          exact Script.residue_endIf
    · exact agrees_plain hplain hfree hsize fun w' _ hsmall => ih hrest hsmall

end Walk

/-- Cutting conditionals out of a queue agrees with a walk that keeps a stack of conditions: a
script without pushes of the length of a hash completes on the stack on which the walk ends, and
fails when the walk does. -/
theorem Context.execute_eq_walk {ctx : Context} {s : Script} (hfree : s.HashFree) :
    (∀ stack, ctx.execute s = some (.completed stack) ↔ ctx.walk s = some stack) ∧
      ((∃ reason stack, ctx.execute s = some (.failed reason stack)) ↔ ctx.walk s = none) := by
  have hagrees : Walk.Agrees ctx s ⟨[], [], []⟩ := Walk.agrees hfree (by decide)
  have hlen : s.length < ctx.budget s := by
    have := s.length_le_weight
    unfold budget
    omega
  obtain ⟨ending, hrun, hending⟩ := hagrees.endsAs s rfl (ctx.budget s) hlen
  have hexecute : ctx.execute s = some ending := hrun
  have hwalk : ctx.walk s = Walk.run ctx s ⟨[], [], []⟩ := rfl
  rw [hexecute, hwalk]
  generalize Walk.run ctx s ⟨[], [], []⟩ = answer at hending
  cases hending with
  | completed stack => simp
  | failed reason stack => simp

def Script.nestedAlternatives : Script :=
  [.op .pushOne, .op .ifTrue, .op .zero, .op .ifTrue, .op .verify, .op .orElse, .data [7],
    .op .orElse, .op .verify, .op .endIf, .op .orElse, .op .ifFalse, .op .endIf, .op .endIf]

theorem Context.execute_nestedAlternatives :
    Script.nestedAlternatives.HashFree ∧
      (⟨Secp256k1.scheme, FixedBytes.zero 32, [], none⟩ : Context).execute
        Script.nestedAlternatives = some (.completed [[7]]) :=
  ⟨by decide, ((execute_eq_walk (by decide)).1 [[7]]).mpr (by decide +kernel)⟩

end BitcoinSpend

import BitcoinSpend.Proofs.Machine.Bounds
import BitcoinSpend.Proofs.Machine.Expansion

namespace BitcoinSpend

namespace Context

variable {ctx : Context}

/-- The copy of three elements that is refused. -/
theorem step_copyThree_full {q : Script} {st alt : Stack} (hlen : 3 ≤ st.length)
    (hfull : st.length + alt.length = maxStackSize) :
    (⟨.op ⟨0x6f⟩ :: q, st, alt⟩ : State).step ctx =
      .error (.failed .stackSize (st.take 3 ++ st)) := by
  have hdup : (StackInstruction.dup 3).run st = .ok () (st.take 3 ++ st) :=
    lift_eq_ok_iff.mpr (Stack.rearrange_eq_ok_iff.mpr ⟨hlen, rfl⟩)
  have hcode : Opcode.instruction ⟨0x6f⟩ = .stack (.dup 3) := rfl
  have hbig : maxStackSize < (st.take 3 ++ st).length + alt.length := by
    simp only [List.length_append, List.length_take]
    omega
  simp only [State.step, State.runCommand, hcode, State.runInstruction, State.onStack, hdup,
    Except.bind, State.checkSize, gt_iff_lt, hbig, if_true, State.fail]

/-- Both bounds are reached: by as many pushes as there may be elements, and a copy of three. -/
theorem execute_full {ds : List Bytes} (hlen : ds.length = maxStackSize)
    (hplain : leadingPrograms ds = []) :
    ctx.execute (ds.map .data ++ []) = some (.completed ds.reverse) ∧
      ctx.execute (ds.map .data ++ [.op ⟨0x6f⟩]) =
        some (.failed .stackSize (ds.reverse.take 3 ++ ds.reverse)) := by
  have hends : ∀ (q : Script) (ending : Ending), q.scriptHash? = none →
      (⟨q, ds.reverse, []⟩ : State).step ctx = .error ending →
      ctx.execute (ds.map .data ++ q) = some ending := by
    intro q ending hq hstep
    obtain ⟨path, hlength, hchain⟩ := exists_chain_unlocking ctx (Nat.le_of_eq hlen) hplain hq
    refine execute_of_run (hchain.run_of_error hstep) ?_
    simp only [hlength, List.length_append, List.length_map]
    omega
  have hmax : 3 ≤ maxStackSize := by decide
  refine ⟨hends [] _ rfl rfl, hends [.op ⟨0x6f⟩] _ rfl (step_copyThree_full ?_ ?_)⟩
  · rw [List.length_reverse]
    omega
  · rw [List.length_reverse, hlen]
    rfl

/-- Both stacks together hold at most 1000 elements wherever a step of a run starts. Within whatever
number of steps, a run that completes leaves no more than that, and one that fails shows at most
three more, which are there only when the check of the size fails. -/
theorem stacks_within_limit (ctx : Context) (s : Script) :
    (∀ n, ∀ t ∈ (State.ofScript s).visited ctx n, t.stack.length + t.alt.length ≤ 1000) ∧
    (∀ n stack, (State.ofScript s).run ctx n = some (.completed stack) → stack.length ≤ 1000) ∧
    ∀ n reason stack, (State.ofScript s).run ctx n = some (.failed reason stack) →
      stack.length ≤ 1003 ∧ (reason ≠ .stackSize → stack.length ≤ 1000) := by
  have hstart : (State.ofScript s).Bounded Any maxStackSize :=
    State.bounded_ofScript fun _ _ => trivial
  have hmax : maxStackSize = 1000 := rfl
  refine ⟨fun n t ht => ?_, fun n stack h => ?_, fun n reason stack h => ?_⟩
  · exact (State.bounded_of_mem_visited .any (fun _ _ => trivial) hstart ht).size_le
  · cases State.bounded_of_run_ofScript h with
    | completed hstack => exact hstack.length_le
  · cases State.bounded_of_run_ofScript h with
    | failed hstack _ =>
      have hle := hstack.length_le
      exact ⟨by omega, fun _ => by omega⟩
    | overfull hle _ => exact ⟨by omega, fun hne => absurd rfl hne⟩

/-- As many elements as there may be. -/
def fullPushes : List Bytes :=
  List.replicate maxStackSize [1]

theorem limit_reached :
    ((bare []).execute (fullPushes.map .data ++ []) = some (.completed fullPushes.reverse) ∧
      fullPushes.reverse.length ≤ 1000) ∧
    (bare []).execute (fullPushes.map .data ++ [.op ⟨0x6f⟩]) =
        some (.failed .stackSize (fullPushes.reverse.take 3 ++ fullPushes.reverse)) ∧
      (fullPushes.reverse.take 3 ++ fullPushes.reverse).length ≤ 1003 := by
  have hlen : fullPushes.length = maxStackSize := List.length_replicate
  obtain ⟨hcompleted, hfailed⟩ := execute_full hlen rfl
  obtain ⟨_, hle, _⟩ := stacks_within_limit _ _
  obtain ⟨_, _, hle'⟩ := stacks_within_limit _ _
  exact ⟨⟨hcompleted, hle _ _ hcompleted⟩, hfailed, (hle' _ _ _ hfailed).1⟩

end Context

end BitcoinSpend

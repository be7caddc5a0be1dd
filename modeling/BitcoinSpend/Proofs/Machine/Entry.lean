import BitcoinSpend.Curve.Ecdsa
import BitcoinSpend.Proofs.Machine.Balance
import BitcoinSpend.Proofs.Machine.Step

namespace BitcoinSpend

namespace Script

theorem scriptHash?_eq_some_iff {s : Script} {h : FixedBytes 20} :
    s.scriptHash? = some h ↔ s = payToScriptHash h := by
  constructor
  · intro hs
    unfold scriptHash? at hs
    split at hs
    next a bs b =>
      split at hs
      next hab =>
        obtain ⟨rfl, rfl⟩ := hab
        rw [← FixedBytes.ofBytes?_eq_some_iff.mp hs]
        rfl
      next => simp at hs
    next => simp at hs
  · intro heq
    subst heq
    simp [scriptHash?, payToScriptHash]

theorem scriptHash?_eq_none_of_length {s : Script} (h : s.length ≠ 3) : s.scriptHash? = none := by
  by_contra hs
  obtain ⟨k, hk⟩ := Option.ne_none_iff_exists'.mp hs
  rw [scriptHash?_eq_some_iff.mp hk] at h
  exact h rfl

theorem scriptHash?_eq_none_of_getLast? {s : Script} (h : s.getLast? ≠ some (.op .equal)) :
    s.scriptHash? = none := by
  by_contra hs
  obtain ⟨k, hk⟩ := Option.ne_none_iff_exists'.mp hs
  rw [scriptHash?_eq_some_iff.mp hk] at h
  exact h rfl

theorem scriptHash?_cons_eq_none {c : Command} (hc : c ≠ .op .hash160) (s : Script) :
    scriptHash? (c :: s) = none := by
  by_contra hs
  obtain ⟨k, hk⟩ := Option.ne_none_iff_exists'.mp hs
  exact hc (List.cons.inj (scriptHash?_eq_some_iff.mp hk)).1

theorem getLast?_append_payToKeyHashes {s : Script} (hne : s ≠ [])
    (hlast : s.getLast? ≠ some (.op .equal)) (front : Script) (hs : List (FixedBytes 20)) :
    (front ++ (s ++ hs.flatMap payToKeyHash)).getLast? ≠ some (.op .equal) := by
  rw [List.getLast?_append_of_ne_nil _ (by simp [hne])]
  cases hs using List.reverseRecOn with
  | nil => simpa using hlast
  | append_singleton hs h =>
    rw [List.flatMap_append, List.getLast?_append_of_ne_nil _ (by simp [payToKeyHash])]
    simp [payToKeyHash]
    decide

end Script

namespace State

variable {ctx : Context}

/-- The key hash whose program the push at the front of the queue completes. -/
def keyHashProgram? (s : State) : Option (FixedBytes 20) :=
  s.program?.bind (FixedBytes.ofBytes? 20)

/-- A step in front of a balanced tail leaves the tail whole. At most a witness program adds
commands behind it. -/
theorem step_front {c : Command} {front tail : Script} {st alt : Stack} {t : State}
    (htail : Script.Balanced tail) (hsh : Script.scriptHash? (front ++ tail) = none)
    (h : (⟨c :: (front ++ tail), st, alt⟩ : State).step ctx = .ok t) :
    ((⟨c :: (front ++ tail), st, alt⟩ : State).program? = none ∧
      ∃ front', t.queue = front' ++ tail) ∨
    ∃ program added, (⟨c :: (front ++ tail), st, alt⟩ : State).program? = some program ∧
      Expands ctx program added ∧ t.queue = front ++ (tail ++ added) := by
  cases c with
  | op code =>
    refine Or.inl ⟨rfl, ?_⟩
    rcases step_op_queue h with hq | ⟨b, condition, hb, hq⟩
    · exact ⟨front, hq⟩
    · obtain ⟨front', hf⟩ := Conditional.branch_append_of_split? condition htail hb
      exact ⟨front', hq.trans hf⟩
  | data bs =>
    rcases step_data_ok hsh h with ⟨rfl, added, hadd, rfl⟩ | ⟨rfl, hnone⟩
    · refine Or.inr ⟨bs, added, by simp [program?, hadd.length], hadd, ?_⟩
      simp only [List.append_assoc]
    · exact Or.inl ⟨hnone, front, rfl⟩

/-- The push at the front of the queue completes a witness program while a tail of the queue is
still to come. -/
def CompletesBefore (ctx : Context) (tail : Script) (s : State) : Prop :=
  ∃ c front program added, s.queue = c :: (front ++ tail) ∧ s.program? = some program ∧
    Expands ctx program added

/-- A run reaches a balanced tail of its queue with nothing behind it, unless it completes a witness
program before. -/
theorem Accepts.reaches_tail_or_program {tail : Script} (htail : Script.Balanced tail)
    (hsh : ∀ front, Script.scriptHash? (front ++ tail) = none) {n : Nat} {front : Script}
    {st alt : Stack} (ha : (⟨front ++ tail, st, alt⟩ : State).Accepts ctx n) :
    ∃ path t, Chain ctx ⟨front ++ tail, st, alt⟩ path t ∧
      (t.queue = tail ∨ t.CompletesBefore ctx tail) := by
  induction n generalizing front st alt with
  | zero =>
    obtain ⟨stack, hrun, _⟩ := ha
    simp [run] at hrun
  | succ n ih =>
    cases front with
    | nil => exact ⟨[], _, .refl _, Or.inl rfl⟩
    | cons c front =>
      obtain ⟨m, ⟨queue, st', alt'⟩, hm, hstep, ht⟩ := ha.step_cons
      obtain rfl : m = n := by omega
      rcases step_front htail (hsh front) hstep with
        ⟨_, front', rfl⟩ | ⟨program, added, hp, hadd, _⟩
      · obtain ⟨path, u, hchain, hu⟩ := ih ht
        exact ⟨_ :: path, u, .step hstep hchain, hu⟩
      · exact ⟨[], _, .refl _, Or.inr ⟨c, front, program, added, rfl, hp, hadd⟩⟩

/-- Without a witness a run reaches a balanced tail of its queue whole. Behind it stand the scripts
of the key hash programs that were completed on the way. -/
theorem Accepts.reaches_tail (hw : ctx.witness = []) {tail : Script}
    (htail : Script.Balanced tail) (hsh : ∀ (front : Script) (hs : List (FixedBytes 20)),
      Script.scriptHash? (front ++ (tail ++ hs.flatMap Script.payToKeyHash)) = none)
    {n : Nat} {front : Script} {hs : List (FixedBytes 20)} {st alt : Stack}
    (ha : (⟨front ++ (tail ++ hs.flatMap Script.payToKeyHash), st, alt⟩ : State).Accepts ctx n) :
    ∃ path t, Chain ctx ⟨front ++ (tail ++ hs.flatMap Script.payToKeyHash), st, alt⟩ path t ∧
      t.queue = tail ++ (hs ++ path.filterMap keyHashProgram?).flatMap Script.payToKeyHash := by
  -- Each step in front of the tail takes one from `n`, which ends the induction.
  induction n generalizing front hs st alt with
  | zero =>
    obtain ⟨stack, hrun, _⟩ := ha
    simp [run] at hrun
  | succ n ih =>
    cases front with
    | nil => exact ⟨[], _, .refl _, by simp⟩
    | cons c front =>
      obtain ⟨m, ⟨queue, st', alt'⟩, hm, hstep, ht⟩ := ha.step_cons
      obtain rfl : m = n := by omega
      have hbal := htail.append (Script.balanced_payToKeyHashes hs)
      rcases step_front hbal (hsh front hs) hstep with
        ⟨hnone, front', rfl⟩ | ⟨program, added, hp, hadd, rfl⟩
      · obtain ⟨path, u, hchain, hu⟩ := ih ht
        refine ⟨_ :: path, u, .step hstep hchain, ?_⟩
        rw [hu, List.filterMap_cons_none
          (by simp only [keyHashProgram?, List.cons_append, hnone]; rfl)]
      · cases hadd with
        | scriptHash hlast _ => simp [hw] at hlast
        | keyHash h =>
          have hq : front ++ (tail ++ hs.flatMap Script.payToKeyHash ++
              (ctx.witness.map Command.data ++ Script.payToKeyHash h)) =
              front ++ (tail ++ (hs ++ [h]).flatMap Script.payToKeyHash) := by
            simp [hw]
          rw [hq] at ht hstep
          obtain ⟨path, u, hchain, hu⟩ := ih ht
          refine ⟨_ :: path, u, .step hstep hchain, ?_⟩
          rw [hu, List.filterMap_cons_some (b := h)
            (by simp only [keyHashProgram?, List.cons_append, hp]; simp)]
          simp

end State

namespace Context

variable {ctx : Context} {unlocking tail : Script}

/-- Without a witness an accepted run comes to a balanced tail of its script. -/
theorem tail_reached (hw : ctx.witness = []) (htail : Script.Balanced tail)
    (hsh : ∀ (front : Script) (hs : List (FixedBytes 20)),
      Script.scriptHash? (front ++ (tail ++ hs.flatMap Script.payToKeyHash)) = none)
    (h : ctx.evaluate (unlocking ++ tail) = .ok true) :
    ∃ path hs st alt m, hs = path.filterMap State.keyHashProgram? ∧
      State.Chain ctx (State.ofScript (unlocking ++ tail)) path
        ⟨tail ++ hs.flatMap Script.payToKeyHash, st, alt⟩ ∧
      (⟨tail ++ hs.flatMap Script.payToKeyHash, st, alt⟩ : State).Accepts ctx m := by
  have ha := evaluate_eq_ok_true_iff.mp h
  have hstart : State.ofScript (unlocking ++ tail) =
      ⟨unlocking ++ (tail ++ [].flatMap Script.payToKeyHash), [], []⟩ := by
    simp [State.ofScript]
  obtain ⟨path, ⟨queue, st, alt⟩, hchain, hqueue⟩ :=
    State.Accepts.reaches_tail hw htail hsh (hstart ▸ ha)
  rw [← hstart] at hchain
  obtain rfl : queue = tail ++ (path.filterMap State.keyHashProgram?).flatMap Script.payToKeyHash :=
    hqueue
  obtain ⟨m, _, _, hm⟩ := hchain.visited ha
  exact ⟨path, _, st, alt, m, rfl, hchain, hm⟩

/-- With a witness it comes to the tail as well, or completes a witness program in front of it. -/
theorem tail_reached_or_program (htail : Script.Balanced tail)
    (hsh : ∀ front, Script.scriptHash? (front ++ tail) = none)
    (h : ctx.evaluate (unlocking ++ tail) = .ok true) :
    (∃ s ∈ ctx.visited (unlocking ++ tail), s.CompletesBefore ctx tail) ∨
      ∃ st alt m, (⟨tail, st, alt⟩ : State) ∈ ctx.visited (unlocking ++ tail) ∧
        (⟨tail, st, alt⟩ : State).Accepts ctx m := by
  have ha := evaluate_eq_ok_true_iff.mp h
  obtain ⟨path, ⟨queue, st, alt⟩, hchain, hqueue | hcompletes⟩ :=
    State.Accepts.reaches_tail_or_program htail hsh ha
  · obtain rfl : queue = tail := hqueue
    obtain ⟨m, _, _, hm⟩ := hchain.visited ha
    exact Or.inr ⟨st, alt, m, hchain.mem_visited ha, hm⟩
  · exact Or.inl ⟨_, hchain.mem_visited ha, hcompletes⟩

/-- An unlocking script cannot skip, cut or capture the locking script: an accepting run comes to
all of its commands, with nothing behind them but the scripts of key hash programs that were
completed before. -/
theorem locking_reached {ctx : Context} {unlocking locking : Script} (hw : ctx.witness = [])
    (hne : locking ≠ []) (hbal : locking.Balanced)
    (hlast : locking.getLast? ≠ some (.op .equal))
    (h : ctx.evaluate (unlocking ++ locking) = .ok true) :
    ∃ before s after, ctx.visited (unlocking ++ locking) = before ++ s :: after ∧
      s.queue = locking ++
        (before.filterMap State.keyHashProgram?).flatMap Script.payToKeyHash := by
  have hsh := fun front hs => Script.scriptHash?_eq_none_of_getLast?
    (Script.getLast?_append_payToKeyHashes hne hlast front hs)
  obtain ⟨path, _, st, alt, _, rfl, hchain, _⟩ := tail_reached hw hbal hsh h
  obtain ⟨_, after, hv, _⟩ := hchain.visited (evaluate_eq_ok_true_iff.mp h)
  exact ⟨path, _, after, hv, rfl⟩

theorem locking_reached_behind_conditional :
    ∃ before s after,
      (⟨Secp256k1.scheme, FixedBytes.zero 32, [], none⟩ : Context).visited
          ([.op .pushOne, .op .ifTrue, .op .pushOne, .op .orElse, .op .endIf] ++
            [.op .ifTrue, .op .pushOne, .op .endIf]) = before ++ s :: after ∧
      s.queue = [.op .ifTrue, .op .pushOne, .op .endIf] ++
        (before.filterMap State.keyHashProgram?).flatMap Script.payToKeyHash :=
  locking_reached rfl (by decide) (by decide) (by decide) (by decide +kernel)

end Context

end BitcoinSpend

import BitcoinSpend.Curve.Ecdsa
import BitcoinSpend.Proofs.Machine.Witness

namespace BitcoinSpend

namespace State

variable {ctx : Context} {s t u : State} {path path' : List State} {ending : Ending}

/-- The run from a state ends so, after some number of steps. -/
def EndsIn (ctx : Context) (s : State) (ending : Ending) : Prop :=
  ∃ n, s.run ctx n = some ending

theorem EndsIn.unique {other : Ending} (h : s.EndsIn ctx ending) (h' : s.EndsIn ctx other) :
    ending = other := by
  obtain ⟨m, hm⟩ := h
  obtain ⟨n, hn⟩ := h'
  have hlong := run_of_le hm (Nat.le_max_left m n)
  exact Option.some.inj (hlong.symm.trans (run_of_le hn (Nat.le_max_right m n)))

theorem Chain.endsIn_iff (h : Chain ctx s path t) : s.EndsIn ctx ending ↔ t.EndsIn ctx ending := by
  constructor
  · intro hs
    obtain ⟨n, hn⟩ := hs
    exact ⟨n, (h.run_eq n).symm.trans (run_of_le hn (Nat.le_add_left n path.length))⟩
  · intro ht
    obtain ⟨n, hn⟩ := ht
    exact ⟨path.length + n, (h.run_eq n).trans hn⟩

variable {bs : Bytes} {q : Script} {st alt : Stack}

theorem step_redeem {script : Script} (hq : q.scriptHash? = some (hash160 bs))
    (hscript : Script.ofBody bs = .ok script)
    (hplain : ∀ program, st = [program, []] → program.length ≠ 20 ∧ program.length ≠ 32)
    (hsize : st.length + alt.length ≤ maxStackSize) :
    (⟨.data bs :: q, st, alt⟩ : State).step ctx = .ok ⟨script, st, alt⟩ := by
  refine step_eq_ok_iff.mpr ⟨?_, hsize⟩
  simp only [runCommand, pushData, hq, hscript, ne_eq, not_true_eq_false, if_false]
  exact expandProgram_of_length hplain

theorem step_redeem_malformed {e : ScriptError} (hq : q.scriptHash? = some (hash160 bs))
    (hscript : Script.ofBody bs = .error e) :
    (⟨.data bs :: q, st, alt⟩ : State).step ctx = .error (.malformed e) := by
  simp [step, runCommand, pushData, hq, hscript, Except.bind]

theorem step_redeem_mismatch {h : FixedBytes 20} (hq : q.scriptHash? = some h)
    (hne : hash160 bs ≠ h) :
    (⟨.data bs :: q, st, alt⟩ : State).step ctx = .error (.failed .scriptHashMismatch st) := by
  simp [step, runCommand, pushData, hq, hne, fail, Except.bind]

theorem step_program_malformed {e : ScriptError} (hlast : ctx.witness.getLast? = some bs)
    (hscript : Script.ofBody bs = .error e) (hq : q.scriptHash? = none) :
    (⟨.data (Sha256.digest bs).bytes :: q, [[]], alt⟩ : State).step ctx =
      .error (.malformed e) := by
  simp [step, runCommand, pushData, hq, expandProgram, (Sha256.digest bs).length_eq, hlast, hscript,
    Except.bind]

end State

namespace Context

/-- Two scripts end alike, whenever one of them ends. What they answer within their budgets is then
the same. -/
structure EvaluatesAs (ctx : Context) (s t : Script) : Prop where
  endsIn_iff : ∀ ending,
    (State.ofScript s).EndsIn ctx ending ↔ (State.ofScript t).EndsIn ctx ending
  execute_eq : ∀ ending other, ctx.execute s = some ending → ctx.execute t = some other →
    ending = other

variable {ctx : Context} {s t u : Script}

theorem EvaluatesAs.of_endsIn_iff (h : ∀ ending,
    (State.ofScript s).EndsIn ctx ending ↔ (State.ofScript t).EndsIn ctx ending) :
    ctx.EvaluatesAs s t :=
  ⟨h, fun ending _ hs ht => ((h ending).mp ⟨_, hs⟩).unique ⟨_, ht⟩⟩

theorem EvaluatesAs.of_chains {path path' : List State} {x : State}
    (hs : State.Chain ctx (State.ofScript s) path x)
    (ht : State.Chain ctx (State.ofScript t) path' x) : ctx.EvaluatesAs s t :=
  .of_endsIn_iff fun _ => hs.endsIn_iff.trans ht.endsIn_iff.symm

theorem EvaluatesAs.trans (h : ctx.EvaluatesAs s t) (h' : ctx.EvaluatesAs t u) :
    ctx.EvaluatesAs s u :=
  .of_endsIn_iff fun ending => (h.endsIn_iff ending).trans (h'.endsIn_iff ending)

theorem evaluatesAs_of_expands {program : Bytes} {added : Script}
    (h : Expands ctx program added) : ctx.EvaluatesAs [.op .zero, .data program] added := by
  have hq : Script.scriptHash? [] = none := rfl
  have hsize : ([] : Stack).length + 1 ≤ maxStackSize := by decide
  obtain ⟨path, _, hchain⟩ := State.exists_chain_program h hq hsize
  exact .of_chains hchain (.refl _)

theorem payToWitnessKeyHash_evaluatesAs (ctx : Context) (h : FixedBytes 20) :
    ctx.EvaluatesAs (Script.payToWitnessKeyHash h)
      (ctx.witness.map .data ++ Script.payToKeyHash h) :=
  evaluatesAs_of_expands (.keyHash h)

theorem payToWitnessScriptHash_evaluatesAs {items : List Bytes} {body : Bytes} {script : Script}
    (hw : ctx.witness = items ++ [body]) (hscript : Script.ofBody body = .ok script) :
    ctx.EvaluatesAs (Script.payToWitnessScriptHash (Sha256.digest body))
      (items.map .data ++ script) := by
  have hadd : Expands ctx (Sha256.digest body).bytes (ctx.witness.dropLast.map .data ++ script) :=
    .scriptHash (by simp [hw]) hscript
  rw [hw, List.dropLast_concat] at hadd
  exact evaluatesAs_of_expands hadd

theorem execute_payToWitnessScriptHash_malformed {items : List Bytes} {body : Bytes}
    {e : ScriptError} (hw : ctx.witness = items ++ [body])
    (hscript : Script.ofBody body = .error e) :
    ctx.execute (Script.payToWitnessScriptHash (Sha256.digest body)) = some (.malformed e) := by
  have hzero : (State.ofScript (Script.payToWitnessScriptHash (Sha256.digest body))).step ctx =
      .ok ⟨[.data (Sha256.digest body).bytes], [[]], []⟩ :=
    (State.step_op_iff (Stack.pushNumber 0) fun _ => rfl).mpr
      ⟨_, by simp [Stack.pushNumber], rfl, by decide⟩
  have hend := (State.Chain.single hzero).run_of_error
    (State.step_program_malformed (by simp [hw]) hscript rfl)
  exact execute_of_run hend (Nat.le_succ 2)

section Redeem

variable {ds : List Bytes} {r : Bytes}

theorem exists_chain_unlocking (ctx : Context) (hlen : ds.length ≤ maxStackSize)
    (hplain : leadingPrograms ds = []) {q : Script} (hq : q.scriptHash? = none) :
    ∃ path, path.length = ds.length ∧
      State.Chain ctx (State.ofScript (ds.map .data ++ q)) path ⟨q, ds.reverse, []⟩ := by
  have hempty : ([] : Stack).length < 2 → leadingPrograms (([] : Stack).reverse ++ ds) = [] :=
    fun _ => hplain
  have hsize : ds.length + ([] : Stack).length + ([] : Stack).length ≤ maxStackSize := hlen
  obtain ⟨path, hlength, hchain⟩ : ∃ path, path.length = ds.length ∧
      State.Chain ctx ⟨ds.map .data ++ q, [], []⟩ path ⟨q, ds.reverse ++ [], []⟩ :=
    State.exists_chain_pushes hq hempty hsize
  rw [List.append_nil] at hchain
  exact ⟨path, hlength, hchain⟩

/-- The push of the redeem script is a push in front of a push, until it is its turn. -/
theorem exists_chain_redeem (ctx : Context) (hlen : ds.length ≤ maxStackSize)
    (hplain : leadingPrograms ds = []) (r : Bytes) (h : FixedBytes 20) :
    ∃ path, path.length = ds.length ∧
      State.Chain ctx (State.ofScript (ds.map .data ++ .data r :: Script.payToScriptHash h)) path
        ⟨.data r :: Script.payToScriptHash h, ds.reverse, []⟩ :=
  exists_chain_unlocking ctx hlen hplain (Script.scriptHash?_cons_eq_none (by simp) _)

theorem redeem_evaluatesAs (ctx : Context) (hlen : ds.length ≤ maxStackSize)
    (hplain : leadingPrograms ds = []) {script : Script} (hscript : Script.ofBody r = .ok script)
    (hone : script.scriptHash? = none) :
    ctx.EvaluatesAs (ds.map .data ++ .data r :: Script.payToScriptHash (hash160 r))
      (ds.map .data ++ script) := by
  -- Both runs come to the commands of the redeem script with the pushes on the stack.
  obtain ⟨path, _, hchain⟩ := exists_chain_redeem ctx hlen hplain r (hash160 r)
  obtain ⟨path', _, hchain'⟩ := exists_chain_unlocking ctx hlen hplain hone
  have hstack : ∀ program, ds.reverse = [program, []] →
      program.length ≠ 20 ∧ program.length ≠ 32 := by
    intro program hds
    have hds : ds = [] :: program :: [] := by simpa using congrArg List.reverse hds
    exact leadingPrograms_eq_nil_iff.mp hplain program [] hds
  have hsize : ds.reverse.length + ([] : Stack).length ≤ maxStackSize := by simpa using hlen
  have hstep : (⟨.data r :: Script.payToScriptHash (hash160 r), ds.reverse, []⟩ : State).step ctx =
      .ok ⟨script, ds.reverse, []⟩ :=
    State.step_redeem (Script.scriptHash?_eq_some_iff.mpr rfl) hscript hstack hsize
  exact .of_chains (hchain.trans (.single hstep)) hchain'

theorem execute_redeem_of_error {h : FixedBytes 20} {ending : Ending}
    (hlen : ds.length ≤ maxStackSize) (hplain : leadingPrograms ds = [])
    (hend : (⟨.data r :: Script.payToScriptHash h, ds.reverse, []⟩ : State).step ctx =
      .error ending) :
    ctx.execute (ds.map .data ++ .data r :: Script.payToScriptHash h) = some ending := by
  obtain ⟨path, hlength, hchain⟩ := exists_chain_redeem ctx hlen hplain r h
  refine execute_of_run (hchain.run_of_error hend) ?_
  simp only [hlength, List.length_append, List.length_map]
  omega

/-- Both replacements one after the other: a redeem script that is a witness program. -/
theorem nested_evaluatesAs {program : Bytes} {added : Script}
    (hscript : Script.ofBody r = .ok [.op .zero, .data program]) (h : Expands ctx program added) :
    ctx.EvaluatesAs (.data r :: Script.payToScriptHash (hash160 r)) added := by
  have hempty : ([] : List Bytes).length ≤ maxStackSize := Nat.zero_le maxStackSize
  exact (redeem_evaluatesAs ctx hempty rfl hscript rfl).trans (evaluatesAs_of_expands h)

end Redeem

/-- A witness program ends as the script that it stands for does behind the witness, and behind a
number of pushes a script hash ends as the redeem script in its place. A script that cannot be read
ends the run as malformed, and any other hash as a mismatch that leaves the pushes. -/
theorem templates_evaluate_as (ctx : Context) :
    (∀ h, ctx.EvaluatesAs (Script.payToWitnessKeyHash h)
      (ctx.witness.map .data ++ Script.payToKeyHash h)) ∧
    (∀ items body, ctx.witness = items ++ [body] →
      (∀ script, Script.ofBody body = .ok script →
        ctx.EvaluatesAs (Script.payToWitnessScriptHash (Sha256.digest body))
          (items.map .data ++ script)) ∧
      ∀ e, Script.ofBody body = .error e →
        ctx.execute (Script.payToWitnessScriptHash (Sha256.digest body)) = some (.malformed e)) ∧
    ∀ ds : List Bytes, ds.length ≤ 1000 →
      (∀ program rest, ds = [] :: program :: rest → program.length ≠ 20 ∧ program.length ≠ 32) →
      ∀ r,
        (∀ script, Script.ofBody r = .ok script → script.scriptHash? = none →
          ctx.EvaluatesAs (ds.map .data ++ .data r :: Script.payToScriptHash (hash160 r))
            (ds.map .data ++ script)) ∧
        (∀ e, Script.ofBody r = .error e →
          ctx.execute (ds.map .data ++ .data r :: Script.payToScriptHash (hash160 r)) =
            some (.malformed e)) ∧
        ∀ h, h ≠ hash160 r →
          ctx.execute (ds.map .data ++ .data r :: Script.payToScriptHash h) =
            some (.failed .scriptHashMismatch ds.reverse) := by
  refine ⟨ctx.payToWitnessKeyHash_evaluatesAs, fun items body hw => ⟨fun script hscript => ?_,
    fun e hscript => ?_⟩, fun ds hlen hds r => ?_⟩
  · exact payToWitnessScriptHash_evaluatesAs hw hscript
  · exact execute_payToWitnessScriptHash_malformed hw hscript
  · have hplain := leadingPrograms_eq_nil_iff.mpr hds
    have hq : ∀ h, (Script.payToScriptHash h).scriptHash? = some h :=
      fun h => Script.scriptHash?_eq_some_iff.mpr rfl
    refine ⟨fun script hscript hone => ?_, fun e hscript => ?_, fun h hne => ?_⟩
    · exact redeem_evaluatesAs ctx hlen hplain hscript hone
    · exact execute_redeem_of_error hlen hplain (State.step_redeem_malformed (hq _) hscript)
    · exact execute_redeem_of_error hlen hplain (State.step_redeem_mismatch (hq h) hne.symm)

/-- A context with a witness and no lock time. -/
def bare (witness : List Bytes) : Context :=
  ⟨Secp256k1.scheme, FixedBytes.zero 32, witness, none⟩

/-- A witness script and a redeem script of one constant, and a redeem script that ends in front of
the five bytes it says it pushes. -/
theorem true_scripts_evaluate_as :
    (bare [[2], Script.trueBody]).EvaluatesAs
        (Script.payToWitnessScriptHash (Sha256.digest Script.trueBody))
        [.data [2], .op .pushOne] ∧
      (bare []).EvaluatesAs
        ([.data [2], .data Script.trueBody] ++ Script.payToScriptHash (hash160 Script.trueBody))
        [.data [2], .op .pushOne] ∧
      (∃ e, Script.ofBody [5] = .error e ∧
        (bare []).execute ([.data [2], .data [5]] ++ Script.payToScriptHash (hash160 [5])) =
          some (.malformed e)) ∧
      (bare []).execute ([.data [2], .data Script.trueBody] ++
        Script.payToScriptHash (FixedBytes.zero 20)) =
          some (.failed .scriptHashMismatch [[2]]) := by
  obtain ⟨_, hwitness, _⟩ := templates_evaluate_as (bare [[2], Script.trueBody])
  obtain ⟨_, _, hredeem⟩ := templates_evaluate_as (bare [])
  have hbehind := hredeem [[2]] (by decide) (by simp)
  refine ⟨?_, ?_, ⟨_, rfl, ?_⟩, ?_⟩
  · exact (hwitness [[2]] Script.trueBody rfl).1 [.op .pushOne] rfl
  · exact (hbehind Script.trueBody).1 [.op .pushOne] rfl rfl
  · exact (hbehind [5]).2.1 _ rfl
  · exact (hbehind Script.trueBody).2.2 (FixedBytes.zero 20) (by decide +kernel)

end Context

end BitcoinSpend

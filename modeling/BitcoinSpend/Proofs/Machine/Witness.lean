import BitcoinSpend.Proofs.Machine.Template

namespace BitcoinSpend

/-- A body that reads as a script of one true constant. -/
def Script.trueBody : Bytes :=
  [Opcode.pushOne.byte]

/-- A witness whose last item is a script, and whose other items hold an empty one with the hash of
that script behind it. -/
def HidesScript (witness : List Bytes) : Prop :=
  ∃ body script, witness.getLast? = some body ∧ Script.ofBody body = .ok script ∧
    [[], (Sha256.digest body).bytes] <:+: witness

/-- The programs that the items of a witness complete when they are pushed on an empty stack: an
empty item and a program behind it are taken off together, so the next two may follow. -/
def leadingPrograms : List Bytes → List Bytes
  | [] :: program :: rest =>
    if program.length = 20 ∨ program.length = 32 then program :: leadingPrograms rest else []
  | _ => []

theorem leadingPrograms_cons_of_length {program : Bytes} {rest : List Bytes}
    (hlen : program.length = 20 ∨ program.length = 32) :
    leadingPrograms ([] :: program :: rest) = program :: leadingPrograms rest := by
  simp [leadingPrograms, hlen]

theorem leadingPrograms_eq_nil_iff {items : List Bytes} : leadingPrograms items = [] ↔
    ∀ program rest, items = [] :: program :: rest → program.length ≠ 20 ∧ program.length ≠ 32 := by
  unfold leadingPrograms
  split
  next program rest =>
    split
    next hlen =>
      simp only [reduceCtorEq, false_iff, not_forall]
      exact ⟨program, rest, rfl, by omega⟩
    next hlen => simpa using hlen
  next hne => simpa using fun program rest heq => (hne program rest heq).elim

theorem leadingPrograms_push {item : Bytes} {items st : List Bytes}
    (h : st.length < 2 → leadingPrograms (st.reverse ++ item :: items) = []) :
    (item :: st).length < 2 → leadingPrograms ((item :: st).reverse ++ items) = [] := by
  intro hlen
  have hst := h (by simp only [List.length_cons] at hlen; omega)
  simpa using hst

theorem head?_of_leadingPrograms_ne_nil {items : List Bytes} (h : leadingPrograms items ≠ []) :
    items.head? = some [] := by
  unfold leadingPrograms at h
  split at h
  next => rfl
  next => simp at h

theorem isInfix_of_mem_leadingPrograms {program : Bytes} {items : List Bytes}
    (h : program ∈ leadingPrograms items) : [[], program] <:+: items := by
  fun_induction leadingPrograms items with
  | case1 first rest _ ih =>
    rcases List.mem_cons.mp h with rfl | h
    · exact ⟨[], rest, rfl⟩
    · exact (ih h).trans ⟨[[], first], [], by simp⟩
  | case2 => simp at h
  | case3 => simp at h

theorem Expands.cases_program {ctx : Context} {program : Bytes} {added : Script}
    (h : Expands ctx program added) :
    (∃ k : FixedBytes 20, k.bytes = program ∧
      added = ctx.witness.map .data ++ Script.payToKeyHash k) ∨
    ∃ body script, ctx.witness.getLast? = some body ∧ Script.ofBody body = .ok script ∧
      (Sha256.digest body).bytes = program := by
  cases h with
  | keyHash k => exact Or.inl ⟨k, rfl, rfl⟩
  | scriptHash hlast hscript => exact Or.inr ⟨_, _, hlast, hscript, rfl⟩

/-- Programs of key hashes stand for the witness and their scripts. Any other program is the hash of
the script that the witness ends in. -/
theorem Expands.keyHashes_or_script {ctx : Context} {programs : List Bytes} {added : List Script}
    (h : List.Forall₂ (Expands ctx) programs added) :
    (∃ hs : List (FixedBytes 20),
      added.flatten = hs.flatMap (fun k => ctx.witness.map .data ++ Script.payToKeyHash k) ∧
        (programs = [] → hs = [])) ∨
    ∃ body script, ctx.witness.getLast? = some body ∧ Script.ofBody body = .ok script ∧
      (Sha256.digest body).bytes ∈ programs := by
  induction h with
  | nil => exact Or.inl ⟨[], rfl, fun _ => rfl⟩
  | cons hfirst _ ih =>
    rcases hfirst.cases_program with ⟨k, rfl, rfl⟩ | ⟨body, script, hlast, hscript, rfl⟩
    · rcases ih with ⟨hs, hflat, _⟩ | ⟨body, script, hlast, hscript, hmem⟩
      · exact Or.inl ⟨k :: hs, by simp [hflat], by simp⟩
      · exact Or.inr ⟨body, script, hlast, hscript, List.mem_cons_of_mem _ hmem⟩
    · exact Or.inr ⟨body, script, hlast, hscript, List.mem_cons_self⟩

namespace State

variable {ctx : Context}

/-- Items that complete no witness program are put on the stack one by one. -/
theorem exists_chain_pushes {items : List Bytes} {q : Script} {st alt : Stack}
    (hq : q.scriptHash? = none)
    (hplain : st.length < 2 → leadingPrograms (st.reverse ++ items) = [])
    (hsize : items.length + st.length + alt.length ≤ maxStackSize) :
    ∃ path, path.length = items.length ∧
      Chain ctx ⟨items.map .data ++ q, st, alt⟩ path ⟨q, items.reverse ++ st, alt⟩ := by
  induction items generalizing st with
  | nil => exact ⟨[], rfl, .refl _⟩
  | cons item items ih =>
    simp only [List.length_cons] at hsize
    have hqueue : Script.scriptHash? (items.map .data ++ q) = none := by
      cases items with
      | nil => exact hq
      | cons _ _ => exact Script.scriptHash?_cons_eq_none (by simp) _
    have hprogram : st = [[]] → item.length ≠ 20 ∧ item.length ≠ 32 := by
      intro hst
      subst hst
      by_contra hlen
      have hlead := hplain (by simp)
      rw [List.reverse_singleton, List.singleton_append,
        leadingPrograms_cons_of_length (by omega)] at hlead
      simp at hlead
    have hstep : (⟨.data item :: (items.map .data ++ q), st, alt⟩ : State).step ctx = .ok _ :=
      step_push hqueue hprogram (by omega)
    obtain ⟨path, hlength, hchain⟩ :=
      ih (leadingPrograms_push hplain) (by simp only [List.length_cons]; omega)
    refine ⟨⟨.data item :: (items.map .data ++ q), st, alt⟩ :: path, by simp [hlength], ?_⟩
    rw [List.reverse_cons, List.append_assoc]
    exact .step hstep hchain

theorem Accepts.program {program : Bytes} (hlen : program.length = 20 ∨ program.length = 32)
    {n : Nat} {alt : Stack} (ha : (⟨[.op .zero, .data program], [], alt⟩ : State).Accepts ctx n) :
    ∃ added m, Expands ctx program added ∧ (⟨added, [], alt⟩ : State).Accepts ctx m := by
  obtain ⟨_, st, hzero, _, ha₁⟩ := Accepts.op (Stack.pushNumber 0) (fun _ => rfl) ha
  obtain rfl : [[]] = st := by simpa [Stack.pushNumber] using hzero
  obtain ⟨m, t, _, hstep, ht⟩ := ha₁.step_cons
  rcases step_data_ok rfl hstep with ⟨_, added, hadd, rfl⟩ | ⟨rfl, hnone⟩
  · exact ⟨added, m, hadd, ht⟩
  · simp [program?, hlen] at hnone

/-- A program is pushed behind the empty string of its version, which takes both off again. -/
theorem exists_chain_program {program : Bytes} {added q : Script} {alt : Stack}
    (h : Expands ctx program added) (hq : q.scriptHash? = none)
    (hsize : alt.length + 1 ≤ maxStackSize) :
    ∃ path, path.length = 2 ∧
      Chain ctx ⟨.op .zero :: .data program :: q, [], alt⟩ path ⟨q ++ added, [], alt⟩ := by
  have hzero : (⟨.op .zero :: .data program :: q, [], alt⟩ : State).step ctx =
      .ok ⟨.data program :: q, [[]], alt⟩ :=
    (step_op_iff (Stack.pushNumber 0) fun _ => rfl).mpr
      ⟨_, by simp [Stack.pushNumber], rfl, by simp only [List.length_singleton]; omega⟩
  exact ⟨_, rfl, .step hzero (.single (step_completes h hq (by omega)))⟩

theorem accepts_pushOne {st alt : Stack} (hsize : st.length + 1 + alt.length ≤ maxStackSize) :
    (⟨[.op .pushOne], st, alt⟩ : State).Accepts ctx 2 := by
  have hend : (⟨[], [1] :: st, alt⟩ : State).Accepts ctx 1 :=
    accepts_nil_iff.mpr ⟨Nat.one_pos, rfl⟩
  exact hend.of_op (Stack.pushNumber 1) (fun _ => rfl) (by simp [Stack.pushNumber])
    (by simpa using hsize)

/-- The program of a true witness script puts that script behind what is left to run. -/
theorem Accepts.of_true_program (hw : ctx.witness = [Script.trueBody]) {q : Script} {n : Nat}
    (hq : q.scriptHash? = none) (ha : (⟨q ++ [.op .pushOne], [], []⟩ : State).Accepts ctx n) :
    (⟨.op .zero :: .data (Sha256.digest Script.trueBody).bytes :: q, [], []⟩ : State).Accepts ctx
      (n + 2) := by
  have hlast : ctx.witness.getLast? = some Script.trueBody := by simp [hw]
  have hbody : Script.ofBody Script.trueBody = .ok [.op .pushOne] := rfl
  have hadd : Expands ctx (Sha256.digest Script.trueBody).bytes [.op .pushOne] := by
    simpa [hw] using Expands.scriptHash hlast hbody
  have hsize : ([] : Stack).length + 1 ≤ maxStackSize := by decide
  obtain ⟨path, hlength, hchain⟩ := exists_chain_program hadd hq hsize
  rw [Nat.add_comm, ← hlength]
  exact .of_chain hchain ha

theorem scriptHash?_items_eq_none {h : FixedBytes 20} (items : List Bytes) (extra : Script) :
    Script.scriptHash? (items.map .data ++ (Script.payToKeyHash h ++ extra)) = none := by
  refine Script.scriptHash?_eq_none_of_length ?_
  simp only [Script.payToKeyHash, List.length_append, List.length_cons]
  omega

theorem Accepts.push_items {h : FixedBytes 20} {n : Nat} {items : List Bytes} {extra : Script}
    {st alt : Stack} (hplain : st.length < 2 → leadingPrograms (st.reverse ++ items) = [])
    (ha : (⟨items.map .data ++ (Script.payToKeyHash h ++ extra), st, alt⟩ : State).Accepts ctx n) :
    ∃ m, (⟨Script.payToKeyHash h ++ extra, items.reverse ++ st, alt⟩ : State).Accepts ctx m := by
  induction items generalizing n st with
  | nil => exact ⟨n, ha⟩
  | cons item items ih =>
    obtain ⟨m, t, _, hstep, ht⟩ := ha.step_cons
    rcases step_data_ok (scriptHash?_items_eq_none items extra) hstep with
      ⟨rfl, added, hadd, _⟩ | ⟨rfl, _⟩
    · have hlead := hplain (by simp)
      rw [List.reverse_singleton, List.singleton_append,
        leadingPrograms_cons_of_length hadd.length] at hlead
      simp at hlead
    · obtain ⟨m, hm⟩ := ih (leadingPrograms_push hplain) ht
      exact ⟨m, by simpa using hm⟩

theorem Accepts.of_push_items {h : FixedBytes 20} {n : Nat} {items : List Bytes} {extra : Script}
    {st alt : Stack} (hplain : st.length < 2 → leadingPrograms (st.reverse ++ items) = [])
    (hsize : items.length + st.length + alt.length ≤ maxStackSize)
    (ha : (⟨Script.payToKeyHash h ++ extra, items.reverse ++ st, alt⟩ : State).Accepts ctx n) :
    (⟨items.map .data ++ (Script.payToKeyHash h ++ extra), st, alt⟩ : State).Accepts ctx
      (n + items.length) := by
  have hq : Script.scriptHash? (Script.payToKeyHash h ++ extra) = none :=
    Script.scriptHash?_cons_eq_none (by decide) _
  obtain ⟨path, hlength, hchain⟩ := exists_chain_pushes hq hplain hsize
  rw [Nat.add_comm, ← hlength]
  exact .of_chain hchain ha

/-- The items are those of the programs at the front, which put what they stand for behind what is
left to run, and those that are on the stack when the script of the key hash starts. -/
theorem Accepts.items {h : FixedBytes 20} {n : Nat} {items : List Bytes} {extra : Script}
    {alt : Stack}
    (ha : (⟨items.map .data ++ (Script.payToKeyHash h ++ extra), [], alt⟩ : State).Accepts ctx n) :
    ∃ gone st added m, items = gone ++ st.reverse ∧
      List.Forall₂ (Expands ctx) (leadingPrograms items) added ∧
      (⟨Script.payToKeyHash h ++ (extra ++ added.flatten), st, alt⟩ : State).Accepts ctx m := by
  fun_induction leadingPrograms items generalizing n extra with
  | case1 program rest hlen ih =>
    -- The empty item is pushed, and the program is taken off with it.
    obtain ⟨_, t₁, _, hempty, ha₁⟩ := ha.step_cons
    rcases step_data_ok (scriptHash?_items_eq_none (program :: rest) extra) hempty with
      ⟨heq, _⟩ | ⟨rfl, _⟩
    · simp at heq
    obtain ⟨_, t₂, _, hprogram, ha₂⟩ := ha₁.step_cons
    rcases step_data_ok (scriptHash?_items_eq_none rest extra) hprogram with
      ⟨_, new, hnew, rfl⟩ | ⟨_, hnone⟩
    · have hqueue : rest.map .data ++ (Script.payToKeyHash h ++ extra) ++ new =
          rest.map .data ++ (Script.payToKeyHash h ++ (extra ++ new)) := by simp
      rw [hqueue] at ha₂
      obtain ⟨gone, st, added, m, hrest, hadded, ha₃⟩ := ih ha₂
      refine ⟨[] :: program :: gone, st, new :: added, m, by simp [hrest], .cons hnew hadded, ?_⟩
      simpa using ha₃
    · simp [program?, hlen] at hnone
  | case2 program rest hlen =>
    have hplain : leadingPrograms ([] :: program :: rest) = [] := by simp [leadingPrograms, hlen]
    obtain ⟨m, hm⟩ := ha.push_items (fun _ => hplain)
    exact ⟨[], ([] :: program :: rest).reverse, [], m, by simp, .nil, by simpa using hm⟩
  | case3 items hne =>
    have hplain : leadingPrograms items = [] :=
      leadingPrograms_eq_nil_iff.mpr fun program rest heq => (hne program rest heq).elim
    obtain ⟨m, hm⟩ := ha.push_items (by simpa using hplain)
    exact ⟨[], items.reverse, [], m, by simp, .nil, by simpa using hm⟩

/-- A witness whose signature was refused once is refused by every key hash program that it is run
for again. -/
theorem not_accepts_repeats {front : List Bytes} {sig key : Bytes}
    (hw : ctx.witness = front ++ [sig, key]) (hrefused : ctx.accepts sig key = false)
    {hs : List (FixedBytes 20)} (hhead : hs ≠ [] → ctx.witness.head? = some []) {n : Nat}
    {rest alt : Stack} :
    ¬(⟨hs.flatMap (fun k => ctx.witness.map .data ++ Script.payToKeyHash k), [] :: rest, alt⟩ :
      State).Accepts ctx n := by
  intro ha
  induction hs generalizing n rest with
  | nil => exact not_accepts_nil ha
  | cons k hs ih =>
    have hempty := hhead (by simp)
    obtain ⟨items, hitems⟩ := List.head?_eq_some_iff.mp hempty
    have hqueue : (k :: hs).flatMap (fun k => ctx.witness.map .data ++ Script.payToKeyHash k) =
        .data [] :: (items.map .data ++ (Script.payToKeyHash k ++
          hs.flatMap fun k => ctx.witness.map .data ++ Script.payToKeyHash k)) := by
      simp [hitems]
    rw [hqueue] at ha
    obtain ⟨_, t, _, hstep, ht⟩ := ha.step_cons
    rcases step_data_ok (scriptHash?_items_eq_none items _) hstep with
      ⟨_, added, hadd, _⟩ | ⟨rfl, _⟩
    · have := hadd.length
      simp at this
    · obtain ⟨m, hm⟩ := ht.push_items (by simp only [List.length_cons]; omega)
      have hreverse : items.reverse ++ [[]] = key :: sig :: front.reverse := by
        simpa using congrArg List.reverse (hitems.symm.trans hw)
      have hstack : items.reverse ++ [[], []] ++ rest =
          key :: sig :: (front.reverse ++ [] :: rest) := by
        simpa using congrArg (· ++ [] :: rest) hreverse
      obtain ⟨key', sig', rest', _, _, hst, _, _, hbehind⟩ := hm.payToKeyHash
      obtain ⟨rfl, hst⟩ := List.cons.inj (hst.symm.trans (by simpa using hstack))
      obtain ⟨rfl, rfl⟩ := List.cons.inj hst
      rw [hrefused] at hbehind
      exact ih (fun _ => hempty) hbehind

theorem Accepts.keyHash_program {h : FixedBytes 20} {n : Nat} {alt : Stack}
    (ha : (⟨Script.payToWitnessKeyHash h, [], alt⟩ : State).Accepts ctx n) :
    ∃ m, (⟨ctx.witness.map .data ++ (Script.payToKeyHash h ++ []), [], alt⟩ :
      State).Accepts ctx m := by
  obtain ⟨added, m, hadd, ha₁⟩ := Accepts.program (Or.inl h.length_eq) ha
  have hadded : added = ctx.witness.map .data ++ Script.payToKeyHash h := by
    rcases hadd.cases_program with ⟨k, hk, rfl⟩ | ⟨body, _, _, _, hbody⟩
    · rw [FixedBytes.ext hk]
    · have := h.length_eq
      rw [← hbody, (Sha256.digest body).length_eq] at this
      omega
  exact ⟨m, by simpa [hadded] using ha₁⟩

theorem Accepts.of_keyHash_program {h : FixedBytes 20} {n : Nat} {alt : Stack}
    (hsize : alt.length + 1 ≤ maxStackSize)
    (ha : (⟨ctx.witness.map .data ++ (Script.payToKeyHash h ++ []), [], alt⟩ :
      State).Accepts ctx n) :
    (⟨Script.payToWitnessKeyHash h, [], alt⟩ : State).Accepts ctx (n + 2) := by
  rw [List.append_nil] at ha
  have hq : Script.scriptHash? [] = none := rfl
  obtain ⟨path, hlength, hchain⟩ := exists_chain_program (Expands.keyHash h) hq hsize
  rw [Nat.add_comm, ← hlength]
  exact .of_chain hchain ha

/-- The program of a key hash that starts on an empty stack demands a witness that ends in a
signature and a key with the hash. The signature must verify, unless the key is a script with the
hash of a program at the front of the witness. -/
theorem Accepts.payToWitnessKeyHash_signs {h : FixedBytes 20} {n : Nat} {alt : Stack}
    (ha : (⟨Script.payToWitnessKeyHash h, [], alt⟩ : State).Accepts ctx n) :
    ∃ front sig key, ctx.witness = front ++ [sig, key] ∧ hash160 key = h ∧
      (ctx.scheme.Signs ctx.digest sig key ∨
        (∃ script, Script.ofBody key = .ok script) ∧
          (Sha256.digest key).bytes ∈ leadingPrograms ctx.witness) := by
  obtain ⟨_, ha₁⟩ := ha.keyHash_program
  obtain ⟨gone, st, added, _, hw, hadded, ha₂⟩ := ha₁.items
  obtain ⟨key, sig, rest, _, _, rfl, hkey, _, hbehind⟩ := ha₂.payToKeyHash
  have hlast : ctx.witness = gone ++ rest.reverse ++ [sig, key] := by simpa using hw
  refine ⟨_, sig, key, hlast, hkey, ?_⟩
  rcases Expands.keyHashes_or_script hadded with
    ⟨hs, hflat, hnone⟩ | ⟨body, script, hbody, hscript, hmem⟩
  · left
    by_contra hsigns
    have hrefused := Context.accepts_eq_false_iff.mpr hsigns
    rw [hrefused, hflat] at hbehind
    refine not_accepts_repeats hlast hrefused ?_ hbehind
    exact fun hne => head?_of_leadingPrograms_ne_nil (mt hnone hne)
  · obtain rfl : key = body := by simpa [hlast] using hbody
    exact Or.inr ⟨⟨script, hscript⟩, hmem⟩

theorem Accepts.payToWitnessKeyHash {h : FixedBytes 20} {n : Nat} {alt : Stack}
    (ha : (⟨Script.payToWitnessKeyHash h, [], alt⟩ : State).Accepts ctx n) :
    ∃ front sig key, ctx.witness = front ++ [sig, key] ∧ hash160 key = h ∧
      (ctx.scheme.Signs ctx.digest sig key ∨ HidesScript ctx.witness) := by
  obtain ⟨front, sig, key, hw, hkey, hsigns⟩ := ha.payToWitnessKeyHash_signs
  refine ⟨front, sig, key, hw, hkey, hsigns.imp_right ?_⟩
  intro hhidden
  obtain ⟨⟨script, hscript⟩, hmem⟩ := hhidden
  exact ⟨key, script, by simp [hw], hscript, isInfix_of_mem_leadingPrograms hmem⟩

/-- The program of a script hash that starts on an empty stack demands a witness that ends in a
script with the hash. -/
theorem Accepts.payToWitnessScriptHash {h : FixedBytes 32} {n : Nat} {alt : Stack}
    (ha : (⟨Script.payToWitnessScriptHash h, [], alt⟩ : State).Accepts ctx n) :
    ∃ body, ctx.witness.getLast? = some body ∧ Sha256.digest body = h := by
  obtain ⟨_, _, hadd, _⟩ := Accepts.program (Or.inr h.length_eq) ha
  rcases hadd.cases_program with ⟨k, hk, _⟩ | ⟨body, _, hlast, _, hbody⟩
  · have := h.length_eq
    rw [← hk, k.length_eq] at this
    omega
  · exact ⟨body, hlast, FixedBytes.ext hbody⟩

end State

end BitcoinSpend

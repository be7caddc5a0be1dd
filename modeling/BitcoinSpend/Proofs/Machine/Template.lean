import BitcoinSpend.Proofs.Machine.Entry
import BitcoinSpend.Proofs.Machine.Success

namespace BitcoinSpend

namespace SignatureScheme

/-- A signature with its hash type, and a key, can be read, and the signature verifies for the key
over a digest. -/
def Signs (scheme : SignatureScheme) (z : Digest) (sig key : Bytes) : Prop :=
  sig ≠ [] ∧ ∃ point signature, scheme.parsePoint key = some point ∧
    scheme.parseSignature sig.dropLast = some signature ∧ scheme.verify point z signature = true

end SignatureScheme

theorem Context.accepts_eq_true_iff {ctx : Context} {sig key : Bytes} :
    ctx.accepts sig key = true ↔ ctx.scheme.Signs ctx.digest sig key := by
  unfold accepts parseSignature SignatureScheme.Signs
  cases sig with
  | nil => simp
  | cons b sig =>
    cases hs : ctx.scheme.parseSignature (b :: sig).dropLast <;>
      cases hp : ctx.scheme.parsePoint key <;> simp

theorem Context.accepts_eq_false_iff {ctx : Context} {sig key : Bytes} :
    ctx.accepts sig key = false ↔ ¬ctx.scheme.Signs ctx.digest sig key := by
  rw [← accepts_eq_true_iff, Bool.not_eq_true]

/-- Only the scheme and the digest of a context decide on a signature. -/
theorem Context.accepts_eq (ctx : Context) (sig key : Bytes) :
    ctx.accepts sig key = accepts { scheme := ctx.scheme, digest := ctx.digest } sig key := by
  have hsigns : ∀ ctx : Context, ctx.accepts sig key = true ↔
      ctx.scheme.Signs ctx.digest sig key := fun _ => accepts_eq_true_iff
  exact Bool.eq_iff_iff.mpr ((hsigns ctx).trans (hsigns (.mk ctx.scheme ctx.digest [] none)).symm)

namespace State

variable {ctx : Context}

theorem step_op_iff {code : Opcode} {q : Script} {st alt : Stack} {t : State}
    (act : StackM Failure Unit)
    (hact : ∀ s : State, s.runInstruction ctx code.instruction = s.onStack act) :
    (⟨.op code :: q, st, alt⟩ : State).step ctx = .ok t ↔ ∃ st', act st = .ok () st' ∧
      t = ⟨q, st', alt⟩ ∧ st'.length + alt.length ≤ maxStackSize := by
  rw [step_eq_ok_iff, runCommand, hact, onStack_eq_ok_iff]
  constructor
  · intro hall
    obtain ⟨⟨st', hst, rfl⟩, hsize⟩ := hall
    exact ⟨st', hst, rfl, hsize⟩
  · intro hall
    obtain ⟨st', hst, rfl, hsize⟩ := hall
    exact ⟨⟨st', hst, rfl⟩, hsize⟩

theorem Accepts.op {code : Opcode} {n : Nat} {q : Script} {st alt : Stack}
    (act : StackM Failure Unit)
    (hact : ∀ s : State, s.runInstruction ctx code.instruction = s.onStack act)
    (ha : (⟨.op code :: q, st, alt⟩ : State).Accepts ctx n) :
    ∃ m st', act st = .ok () st' ∧ Chain ctx ⟨.op code :: q, st, alt⟩ [⟨.op code :: q, st, alt⟩]
      ⟨q, st', alt⟩ ∧ (⟨q, st', alt⟩ : State).Accepts ctx m := by
  obtain ⟨m, t, _, hstep, ht⟩ := ha.step_cons
  obtain ⟨st', hst, rfl, _⟩ := (step_op_iff act hact).mp hstep
  exact ⟨m, st', hst, .single hstep, ht⟩

/-- A push onto a stack that holds more than an empty string is just a push. -/
theorem Accepts.push {bs : Bytes} {n : Nat} {q : Script} {st alt : Stack}
    (hq : q.scriptHash? = none) (hst : st ≠ [[]])
    (ha : (⟨.data bs :: q, st, alt⟩ : State).Accepts ctx n) :
    ∃ m, Chain ctx ⟨.data bs :: q, st, alt⟩ [⟨.data bs :: q, st, alt⟩] ⟨q, bs :: st, alt⟩ ∧
      (⟨q, bs :: st, alt⟩ : State).Accepts ctx m := by
  obtain ⟨m, t, _, hstep, ht⟩ := ha.step_cons
  rcases step_data_ok hq hstep with ⟨hempty, _⟩ | ⟨rfl, _⟩
  · exact absurd hempty hst
  · exact ⟨m, .single hstep, ht⟩

theorem Accepts.of_op {code : Opcode} {n : Nat} {q : Script} {st st' alt : Stack}
    (act : StackM Failure Unit)
    (hact : ∀ s : State, s.runInstruction ctx code.instruction = s.onStack act)
    (hst : act st = .ok () st') (hsize : st'.length + alt.length ≤ maxStackSize)
    (ha : (⟨q, st', alt⟩ : State).Accepts ctx n) :
    (⟨.op code :: q, st, alt⟩ : State).Accepts ctx (n + 1) :=
  .of_step ((step_op_iff act hact).mpr ⟨st', hst, rfl, hsize⟩) ha

theorem step_push {bs : Bytes} {q : Script} {st alt : Stack} (hq : q.scriptHash? = none)
    (hst : st = [[]] → bs.length ≠ 20 ∧ bs.length ≠ 32)
    (hsize : st.length + 1 + alt.length ≤ maxStackSize) :
    (⟨.data bs :: q, st, alt⟩ : State).step ctx = .ok ⟨q, bs :: st, alt⟩ := by
  refine step_eq_ok_iff.mpr ⟨?_, hsize⟩
  simp only [runCommand, pushData, hq]
  refine expandProgram_of_length fun program hp => ?_
  obtain ⟨rfl, hempty⟩ := List.cons.inj hp
  exact hst hempty

theorem Accepts.of_push {bs : Bytes} {n : Nat} {q : Script} {st alt : Stack}
    (hq : q.scriptHash? = none) (hst : st = [[]] → bs.length ≠ 20 ∧ bs.length ≠ 32)
    (hsize : st.length + 1 + alt.length ≤ maxStackSize)
    (ha : (⟨q, bs :: st, alt⟩ : State).Accepts ctx n) :
    (⟨.data bs :: q, st, alt⟩ : State).Accepts ctx (n + 1) :=
  .of_step (step_push hq hst hsize) ha

/-- The script of a key hash demands a key with that hash, and comes to the check of a signature
for it with the stack it started on. -/
theorem Accepts.payToKeyHash {h : FixedBytes 20} {n : Nat} {q : Script} {st alt : Stack}
    (ha : (⟨Script.payToKeyHash h ++ q, st, alt⟩ : State).Accepts ctx n) :
    ∃ key sig rest path m, st = key :: sig :: rest ∧ hash160 key = h ∧
      Chain ctx ⟨Script.payToKeyHash h ++ q, st, alt⟩ path ⟨.op .checkSig :: q, st, alt⟩ ∧
      (⟨q, (if ctx.accepts sig key then [1] else []) :: rest, alt⟩ : State).Accepts ctx m := by
  obtain ⟨_, _, hdup, hc₁, ha₁⟩ := Accepts.op (StackInstruction.dup 1).run (fun _ => rfl) ha
  obtain ⟨key, rest, rfl, rfl⟩ := StackInstruction.run_dup_one_eq_ok_iff.mp hdup
  obtain ⟨_, _, hhash, hc₂, ha₂⟩ :=
    Accepts.op (StackInstruction.hash .hash160).run (fun _ => rfl) ha₁
  obtain ⟨_, _, hst, rfl⟩ := StackInstruction.run_hash_eq_ok_iff.mp hhash
  obtain ⟨rfl, rfl⟩ := List.cons.inj hst
  obtain ⟨_, hc₃, ha₃⟩ := ha₂.push rfl (by simp)
  obtain ⟨_, _, hverify, hc₄, ha₄⟩ := Accepts.op StackInstruction.equalVerify.run (fun _ => rfl) ha₃
  obtain ⟨_, hst⟩ := StackInstruction.run_equalVerify_eq_ok_iff.mp hverify
  obtain ⟨rfl, hst⟩ := List.cons.inj hst
  obtain ⟨hkey, rfl⟩ := List.cons.inj hst
  obtain ⟨m, st', hcheck, _, ha₅⟩ := Accepts.op (pushAnswer ctx.checkSig) (fun _ => rfl) ha₄
  simp only [pushAnswer, bind_eq_ok_iff, Context.checkSig_eq_ok_iff,
    Stack.pushBool_eq_ok_iff] at hcheck
  obtain ⟨answer, rest', ⟨_, sig, hst, hanswer⟩, hst'⟩ := hcheck
  obtain ⟨rfl, rfl⟩ := List.cons.inj hst
  rw [← hst', ← hanswer] at ha₅
  exact ⟨_, sig, rest', _, m, rfl, FixedBytes.ext hkey, ((hc₁.trans hc₂).trans hc₃).trans hc₄, ha₅⟩

/-- The script of a key hash needs room for two elements more. -/
theorem Accepts.payToKeyHash_size {h : FixedBytes 20} {n : Nat} {q : Script} {st alt : Stack}
    (ha : (⟨Script.payToKeyHash h ++ q, st, alt⟩ : State).Accepts ctx n) :
    st.length + 2 + alt.length ≤ maxStackSize := by
  obtain ⟨_, _, hdup, _, ha₁⟩ := Accepts.op (StackInstruction.dup 1).run (fun _ => rfl) ha
  obtain ⟨key, rest, rfl, rfl⟩ := StackInstruction.run_dup_one_eq_ok_iff.mp hdup
  obtain ⟨_, _, hhash, _, ha₂⟩ :=
    Accepts.op (StackInstruction.hash .hash160).run (fun _ => rfl) ha₁
  obtain ⟨_, _, hst, rfl⟩ := StackInstruction.run_hash_eq_ok_iff.mp hhash
  obtain ⟨rfl, rfl⟩ := List.cons.inj hst
  obtain ⟨_, t, _, hstep, _⟩ := ha₂.step_cons
  have hsize := (step_eq_ok_iff.mp hstep).2
  rcases step_data_ok rfl hstep with ⟨heq, _⟩ | ⟨rfl, _⟩
  · simp at heq
  · simp only [List.length_cons] at hsize ⊢
    omega

/-- A key with the hash runs through the script of a key hash and leaves whether the element below
it is a signature for it. -/
theorem Accepts.of_payToKeyHash_answer {h : FixedBytes 20} {n : Nat} {q : Script} {sig key : Bytes}
    {rest alt : Stack} (hkey : hash160 key = h)
    (hsize : rest.length + 4 + alt.length ≤ maxStackSize)
    (ha : (⟨q, (if ctx.accepts sig key then [1] else []) :: rest, alt⟩ : State).Accepts ctx n) :
    (⟨Script.payToKeyHash h ++ q, key :: sig :: rest, alt⟩ : State).Accepts ctx (n + 5) := by
  have hcheck : pushAnswer ctx.checkSig (key :: sig :: rest) =
      .ok () ((if ctx.accepts sig key then [1] else []) :: rest) := by
    simp [pushAnswer]
  have hverify : StackInstruction.equalVerify.run
      (h.bytes :: (hash160 key).bytes :: key :: sig :: rest) = .ok () (key :: sig :: rest) :=
    StackInstruction.run_equalVerify_eq_ok_iff.mpr ⟨h.bytes, by rw [hkey]⟩
  refine .of_op (StackInstruction.dup 1).run (fun _ => rfl)
    (StackInstruction.run_dup_one_eq_ok_iff.mpr ⟨key, sig :: rest, rfl, rfl⟩) (by simp; omega) ?_
  refine .of_op (StackInstruction.hash .hash160).run (fun _ => rfl)
    (StackInstruction.run_hash_eq_ok_iff.mpr ⟨key, key :: sig :: rest, rfl, rfl⟩)
    (by simp; omega) ?_
  refine .of_push rfl (by simp) (by simp; omega) ?_
  refine .of_op StackInstruction.equalVerify.run (fun _ => rfl) hverify (by simp; omega) ?_
  exact .of_op (pushAnswer ctx.checkSig) (fun _ => rfl) hcheck (by simp; omega) ha

/-- A key with the hash and a signature for it run through the script of a key hash. -/
theorem Accepts.of_payToKeyHash {h : FixedBytes 20} {n : Nat} {q : Script} {sig key : Bytes}
    {rest alt : Stack} (hkey : hash160 key = h) (hsig : ctx.scheme.Signs ctx.digest sig key)
    (hsize : rest.length + 4 + alt.length ≤ maxStackSize)
    (ha : (⟨q, [1] :: rest, alt⟩ : State).Accepts ctx n) :
    (⟨Script.payToKeyHash h ++ q, key :: sig :: rest, alt⟩ : State).Accepts ctx (n + 5) := by
  refine .of_payToKeyHash_answer hkey hsize ?_
  rw [Context.accepts_eq_true_iff.mpr hsig]
  exact ha

/-- The script of a script hash that is not run in its place compares hashes and goes on. -/
theorem Accepts.payToScriptHash {h : FixedBytes 20} {n : Nat} {q : Script} {st alt : Stack}
    (ha : (⟨Script.payToScriptHash h ++ q, st, alt⟩ : State).Accepts ctx n) :
    ∃ body rest m, st = body :: rest ∧
      (⟨q, (if h.bytes = (hash160 body).bytes then [1] else []) :: rest, alt⟩ :
        State).Accepts ctx m := by
  obtain ⟨_, _, hhash, _, ha₁⟩ := Accepts.op (StackInstruction.hash .hash160).run (fun _ => rfl) ha
  obtain ⟨body, rest, rfl, rfl⟩ := StackInstruction.run_hash_eq_ok_iff.mp hhash
  have hq : Script.scriptHash? (.op .equal :: q) = none :=
    Script.scriptHash?_cons_eq_none (by decide) q
  have hst : HashAlgorithm.hash160.digest body :: rest ≠ [[]] := fun heq =>
    (hash160 body).bytes_ne_nil (List.cons.inj heq).1
  obtain ⟨_, _, ha₂⟩ := ha₁.push hq hst
  obtain ⟨m, _, hequal, _, ha₃⟩ := Accepts.op StackInstruction.equal.run (fun _ => rfl) ha₂
  obtain ⟨_, _, _, hst', rfl⟩ := StackInstruction.run_equal_eq_ok_iff.mp hequal
  simp only [List.cons.injEq] at hst'
  obtain ⟨rfl, rfl, rfl⟩ := hst'
  exact ⟨body, rest, m, rfl, ha₃⟩

/-- The empty string is false and no key, so that a script of a key hash answers false to it, and so
do all that follow. -/
theorem not_accepts_payToKeyHashes (hempty : ctx.scheme.parsePoint [] = none)
    {hs : List (FixedBytes 20)} {n : Nat} {rest alt : Stack} :
    ¬(⟨hs.flatMap Script.payToKeyHash, [] :: rest, alt⟩ : State).Accepts ctx n := by
  intro ha
  induction hs generalizing n rest with
  | nil => exact not_accepts_nil ha
  | cons h hs ih =>
    obtain ⟨key, sig, rest', _, m, hst, _, _, ha'⟩ := Accepts.payToKeyHash ha
    obtain ⟨rfl, rfl⟩ := List.cons.inj hst
    have hrefused : ctx.accepts sig [] = false := by
      refine Context.accepts_eq_false_iff.mpr ?_
      intro hsigns
      obtain ⟨_, point, _, hpoint, _⟩ := hsigns
      simp [hempty] at hpoint
    rw [hrefused] at ha'
    exact ih ha'

end State

end BitcoinSpend

import BitcoinSpend.Transaction.Verify
import Mathlib.Tactic.Common

namespace BitcoinSpend

theorem map_modify_eq_map {α β : Type} {f : α → α} {g : α → β} (hg : ∀ x, g (f x) = g x)
    (xs : List α) (n : Nat) : (xs.modify n f).map g = xs.map g := by
  apply List.ext_getElem?
  intro m
  simp only [List.getElem?_map, List.getElem?_modify]
  cases xs[m]? with
  | none => rfl
  | some x => by_cases hn : n = m <;> simp [hn, hg]

/-- Every hash that is kept is the hash of the transaction as it is. -/
structure DigestMemo.UpToDate (memo : DigestMemo) (tx : Transaction) : Prop where
  outPointsAndSequences : ∀ hashes, memo.outPointsAndSequences = some hashes →
    hashes = (tx.hashOutPoints, tx.hashSequences)
  outputs : ∀ h, memo.outputs = some h → tx.hashOutputs = .ok h

theorem DigestMemo.upToDate_empty (tx : Transaction) : ({} : DigestMemo).UpToDate tx :=
  ⟨by simp, by simp⟩

/-- The hashes that computations find: those that are kept, and the hashes of the transaction as it
is for those that are not. -/
def DigestMemo.found (memo : DigestMemo) (tx : Transaction) :
    (Digest × Digest) × Except ScriptError Digest :=
  (memo.outPointsAndSequences.getD (tx.hashOutPoints, tx.hashSequences),
    memo.outputs.elim tx.hashOutputs .ok)

theorem DigestMemo.upToDate_iff_found {memo : DigestMemo} {tx : Transaction} :
    memo.UpToDate tx ↔ memo.found tx = ({} : DigestMemo).found tx := by
  constructor
  · intro h
    refine Prod.ext ?_ ?_
    · cases hkept : memo.outPointsAndSequences with
      | none => simp [found, hkept]
      | some hashes => simp [found, hkept, h.outPointsAndSequences hashes hkept]
    · cases hkept : memo.outputs with
      | none => simp [found, hkept]
      | some o => simp [found, hkept, h.outputs o hkept]
  · intro h
    obtain ⟨hashes, outputs⟩ := Prod.mk.inj h
    refine ⟨fun hashes' hkept => ?_, fun o hkept => ?_⟩
    · simpa [hkept] using hashes
    · simpa [hkept] using outputs.symm

section

variable {ε σ α β : Type} {I J : σ → Prop} {m : EStateM ε σ α} {f : α → EStateM ε σ β}

/-- A computation that ends in a state with an answer or an error. -/
def outcome (r : Except ε α) (s : σ) : EStateM.Result ε σ α :=
  match r with
  | .ok a => .ok a s
  | .error e => .error e s

theorem ofExcept_eq_outcome (r : Except ε α) (s : σ) :
    (ofExcept r : EStateM ε σ α) s = outcome r s := by
  cases r <;> rfl

theorem ofExcept_bind (r : Except ε α) (f : α → EStateM ε σ β) (s : σ) :
    ((ofExcept r : EStateM ε σ α) >>= f) s =
      match r with
      | .ok a => f a s
      | .error e => .error e s := by
  cases r <;> rfl

/-- From every state of one kind, a computation gives one and the same answer, and it leaves a state
of another kind. -/
def Yields (I J : σ → Prop) (m : EStateM ε σ α) (r : Except ε α) : Prop :=
  ∀ s, I s → ∃ s', J s' ∧ m s = outcome r s'

namespace Yields

theorem ofExcept (r : Except ε α) : Yields I I (ofExcept r) r :=
  fun s hs => ⟨s, hs, ofExcept_eq_outcome r s⟩

theorem bind {r : Except ε α} {g : α → Except ε β} (hm : Yields I J m r)
    (hf : ∀ a, Yields J J (f a) (g a)) : Yields I J (m >>= f) (r >>= g) := by
  intro s hs
  obtain ⟨s₁, hs₁, hrun⟩ := hm s hs
  show ∃ s', J s' ∧ EStateM.bind m f s = _
  unfold EStateM.bind
  rw [hrun]
  cases r with
  | error e => exact ⟨s₁, hs₁, rfl⟩
  | ok a => exact hf a s₁ hs₁

theorem map {r : Except ε α} (f : α → β) (hm : Yields I J m r) :
    Yields I J (f <$> m) (f <$> r) := by
  rw [← bind_pure_comp f m, ← bind_pure_comp f r]
  exact hm.bind fun a => ofExcept (.ok (f a))

end Yields

/-- What a computation answers is the same in all states of one kind. -/
def Settled (I J : σ → Prop) (m : EStateM ε σ α) : Prop :=
  ∃ r, Yields I J m r

namespace Settled

theorem ofExcept (r : Except ε α) : Settled I I (ofExcept r : EStateM ε σ α) :=
  ⟨r, .ofExcept r⟩

theorem pure (a : α) : Settled I I (pure a : EStateM ε σ α) :=
  ofExcept (.ok a)

theorem bind (hm : Settled I J m) (hf : ∀ a, Settled J J (f a)) : Settled I J (m >>= f) := by
  obtain ⟨r, hr⟩ := hm
  choose g hg using hf
  exact ⟨_, hr.bind hg⟩

theorem map (f : α → β) (hm : Settled I J m) : Settled I J (f <$> m) := by
  obtain ⟨r, hr⟩ := hm
  exact ⟨_, hr.map f⟩

end Settled

end

namespace DigestM

variable {tx : Transaction} {α : Type} {m : DigestM α}

/-- From every memo that is up to date, a computation gives one and the same answer, and it leaves a
memo that is up to date. -/
def Answers (tx : Transaction) (m : DigestM α) (r : Except TxError α) : Prop :=
  Yields (fun memo => memo.UpToDate tx) (fun memo => memo.UpToDate tx) m r

/-- What a computation answers does not depend on what is kept. -/
def Transparent (tx : Transaction) (m : DigestM α) : Prop :=
  Settled (fun memo => memo.UpToDate tx) (fun memo => memo.UpToDate tx) m

/-- From every memo in which it finds some hashes, a computation gives one and the same answer, and
it leaves a memo in which the same hashes are found. -/
def AnswersWith (tx : Transaction) (found : (Digest × Digest) × Except ScriptError Digest)
    (m : DigestM α) (r : Except TxError α) : Prop :=
  Yields (fun memo => memo.found tx = found) (fun memo => memo.found tx = found) m r

/-- What a computation answers depends on the hashes it finds, and it changes none of them. -/
def Steady (tx : Transaction) (found : (Digest × Digest) × Except ScriptError Digest)
    (m : DigestM α) : Prop :=
  Settled (fun memo => memo.found tx = found) (fun memo => memo.found tx = found) m

theorem answers_iff {r : Except TxError α} :
    Answers tx m r ↔ AnswersWith tx (({} : DigestMemo).found tx) m r := by
  simp only [Answers, AnswersWith, Yields, DigestMemo.upToDate_iff_found]

theorem transparent_iff : Transparent tx m ↔ Steady tx (({} : DigestMemo).found tx) m :=
  exists_congr fun _ => answers_iff

end DigestM

namespace Transaction

open DigestM

variable {tx : Transaction} {memo : DigestMemo} {fetch : Fetcher} {scheme : SignatureScheme}

section

variable {found : (Digest × Digest) × Except ScriptError Digest}

theorem answersWith_outPointsAndSequences :
    AnswersWith tx found tx.outPointsAndSequences (.ok found.1) := by
  intro memo hmemo
  subst hmemo
  cases hkept : memo.outPointsAndSequences with
  | some hashes =>
    exact ⟨memo, rfl, by simp [outPointsAndSequences, DigestMemo.found, hkept, outcome]⟩
  | none =>
    exact ⟨{ memo with outPointsAndSequences := some (tx.hashOutPoints, tx.hashSequences) },
      by simp [DigestMemo.found, hkept],
      by simp [outPointsAndSequences, DigestMemo.found, hkept, outcome]⟩

/-- Nothing is kept of outputs that cannot be written. -/
theorem answersWith_outputsHash :
    AnswersWith tx found tx.outputsHash (found.2.mapError fun e => .wire (.script e)) := by
  intro memo hmemo
  subst hmemo
  cases hkept : memo.outputs with
  | some h =>
    exact ⟨memo, rfl, by simp [outputsHash, DigestMemo.found, hkept, Except.mapError, outcome]⟩
  | none =>
    cases hhash : tx.hashOutputs with
    | error e =>
      exact ⟨memo, rfl,
        by simp [outputsHash, DigestMemo.found, hkept, hhash, Except.mapError, outcome]⟩
    | ok h =>
      exact ⟨{ memo with outputs := some h }, by simp [DigestMemo.found, hkept, hhash],
        by simp [outputsHash, DigestMemo.found, hkept, hhash, Except.mapError, outcome]⟩

end

theorem transparent_wholeHashes : Transparent tx tx.wholeHashes :=
  transparent_iff.mpr (.bind ⟨_, answersWith_outPointsAndSequences⟩ fun _ =>
    .bind ⟨_, answersWith_outputsHash⟩ fun _ => .pure _)

/-- What the witness digest of an input hashes. -/
def witnessText (tx : Transaction) (fetch : Fetcher) (index : Nat)
    (redeem witnessScript : Option Script) : Except TxError Bytes := do
  let i ← tx.input index
  let code ← tx.witnessCode fetch i redeem witnessScript
  let amount ← i.amount fetch tx.testnet
  let outputs ← tx.hashOutputs.mapError fun e => .wire (.script e)
  return tx.witnessPreimage i code amount tx.hashOutPoints tx.hashSequences outputs

section

variable {found : (Digest × Digest) × Except ScriptError Digest}

theorem answersWith_witnessDigest (index : Nat) (redeem witnessScript : Option Script) :
    AnswersWith tx found (tx.witnessDigest fetch index redeem witnessScript) (do
      let i ← tx.input index
      let hashes ← .ok found.1
      let code ← tx.witnessCode fetch i redeem witnessScript
      let amount ← i.amount fetch tx.testnet
      let outputs ← found.2.mapError fun e => .wire (.script e)
      .ok (hash256 (tx.witnessPreimage i code amount hashes.1 hashes.2 outputs))) :=
  .bind (.ofExcept _) fun _ => .bind answersWith_outPointsAndSequences fun _ =>
    .bind (.ofExcept _) fun _ => .bind (.ofExcept _) fun _ =>
      .bind answersWith_outputsHash fun _ => .ofExcept (.ok _)

theorem steady_witnessDigest (index : Nat) (redeem witnessScript : Option Script) :
    Steady tx found (tx.witnessDigest fetch index redeem witnessScript) :=
  ⟨_, answersWith_witnessDigest index redeem witnessScript⟩

theorem steady_selectDigest (index : Nat) (i : Input) (locking : Script) :
    Steady tx found (tx.selectDigest fetch index i locking) := by
  unfold selectDigest
  cases locking.template with
  | scriptHash h =>
    refine .bind (.ofExcept _) fun redeem => ?_
    cases redeem.template with
    | witnessKeyHash k => exact .map _ (steady_witnessDigest _ _ _)
    | witnessScriptHash k =>
      exact .bind (.ofExcept _) fun _ => .map _ (steady_witnessDigest _ _ _)
    | nonstandard | keyHash k | scriptHash k => exact .map _ (.ofExcept _)
  | witnessKeyHash h => exact .map _ (steady_witnessDigest _ _ _)
  | witnessScriptHash h =>
    exact .bind (.ofExcept _) fun _ => .map _ (steady_witnessDigest _ _ _)
  | nonstandard | keyHash h => exact .map _ (.ofExcept _)

theorem steady_verifyInput (index : Nat) :
    Steady tx found (tx.verifyInput scheme fetch index) :=
  .bind (.ofExcept _) fun _ => .bind (.ofExcept _) fun _ =>
    .bind (steady_selectDigest _ _ _) fun _ => .ofExcept _

theorem steady_verifyInputs (indices : List Nat) :
    Steady tx found (tx.verifyInputs scheme fetch indices) := by
  induction indices with
  | nil => exact .pure true
  | cons index rest ih =>
    refine .bind (steady_verifyInput index) fun valid => ?_
    cases valid with
    | true => exact ih
    | false => exact .pure false

theorem steady_verify : Steady tx found (tx.verify scheme fetch) := by
  unfold verify
  cases tx.fee fetch with
  | error e => cases e <;> first | exact .pure false | exact .ofExcept (.error _)
  | ok fee =>
    by_cases hneg : fee < 0
    · simp only [hneg, if_true]
      exact .pure false
    · simp only [hneg, if_false]
      exact steady_verifyInputs _

end

theorem answers_witnessDigest (index : Nat) (redeem witnessScript : Option Script) :
    Answers tx (tx.witnessDigest fetch index redeem witnessScript)
      (hash256 <$> tx.witnessText fetch index redeem witnessScript) := by
  simp only [witnessText, map_bind, map_pure]
  exact answers_iff.mpr (answersWith_witnessDigest index redeem witnessScript)

theorem transparent_witnessDigest (index : Nat) (redeem witnessScript : Option Script) :
    Transparent tx (tx.witnessDigest fetch index redeem witnessScript) :=
  ⟨_, answers_witnessDigest index redeem witnessScript⟩

theorem transparent_selectDigest (index : Nat) (i : Input) (locking : Script) :
    Transparent tx (tx.selectDigest fetch index i locking) :=
  transparent_iff.mpr (steady_selectDigest index i locking)

theorem transparent_inputDigest (index : Nat) : Transparent tx (tx.inputDigest fetch index) :=
  .bind (.ofExcept _) fun _ => .bind (.ofExcept _) fun _ => transparent_selectDigest _ _ _

theorem transparent_verifyInput (index : Nat) :
    Transparent tx (tx.verifyInput scheme fetch index) :=
  transparent_iff.mpr (steady_verifyInput index)

theorem transparent_verify : Transparent tx (tx.verify scheme fetch) :=
  transparent_iff.mpr steady_verify

/-- The script that signing an input puts there. -/
def signedScript (tx : Transaction) (scheme : SignatureScheme) (fetch : Fetcher) (index : Nat)
    (secret : scheme.Secret) (compressed : Bool) : Except TxError Script := do
  let i ← tx.input index
  let locking ← i.locking fetch tx.testnet
  match locking.template with
  | .keyHash _ =>
    let z ← tx.legacyDigest fetch index none
    return Draft.unlockingScript scheme secret compressed z
  | other => throw (.unsupportedSigning other)

theorem flatMap_inputs_withScript {f : Input → Bytes} (index : Nat) (script : Script)
    (hf : ∀ i : Input, f { i with script } = f i) :
    (tx.withScript index script).inputs.flatMap f = tx.inputs.flatMap f := by
  rw [List.flatMap_def, List.flatMap_def]
  exact congrArg List.flatten (map_modify_eq_map hf tx.inputs index)

/-- No hash that is kept is one of scripts of inputs. -/
theorem upToDate_withScript (h : memo.UpToDate tx) (index : Nat) (script : Script) :
    memo.UpToDate (tx.withScript index script) := by
  have houtPoints : (tx.withScript index script).hashOutPoints = tx.hashOutPoints :=
    congrArg hash256 (flatMap_inputs_withScript index script fun _ => rfl)
  have hsequences : (tx.withScript index script).hashSequences = tx.hashSequences :=
    congrArg hash256 (flatMap_inputs_withScript index script fun _ => rfl)
  refine ⟨fun hashes hkept => ?_, h.outputs⟩
  rw [houtPoints, hsequences]
  exact h.outPointsAndSequences hashes hkept

end Transaction

namespace Draft

variable {scheme : SignatureScheme} {fetch : Fetcher}

theorem signInput_eq (index : Nat) (secret : scheme.Secret) (compressed : Bool) (d : Draft) :
    signInput scheme fetch index secret compressed d =
      match d.tx.signedScript scheme fetch index secret compressed with
      | .ok script => lift (fun tx => tx.verifyInput scheme fetch index)
          { d with tx := d.tx.withScript index script }
      | .error e => .error e d := by
  show ((ofExcept (d.tx.input index) : EStateM TxError Draft Input) >>= fun i =>
    (ofExcept (i.locking fetch d.tx.testnet) : EStateM TxError Draft Script) >>= _) d = _
  simp only [ofExcept_bind, Transaction.signedScript]
  cases d.tx.input index with
  | error e => rfl
  | ok i =>
    simp only [bind, Except.bind]
    cases i.locking fetch d.tx.testnet with
    | error e => rfl
    | ok locking =>
      simp only
      cases locking.template with
      | keyHash h => cases d.tx.legacyDigest fetch index none <;> rfl
      | _ => rfl

/-- A call on a transaction that keeps hashes. -/
inductive Call (scheme : SignatureScheme) where
  | legacyDigest (index : Nat) (redeem : Option Script)
  | witnessDigest (index : Nat) (redeem witnessScript : Option Script)
  | wholeHashes
  | inputDigest (index : Nat)
  | verifyInput (index : Nat)
  | verify
  | signInput (index : Nat) (secret : scheme.Secret) (compressed : Bool)

/-- What calls answer. -/
inductive Answer where
  | digest (d : Digest)
  | hashes (outPoints sequences outputs : Digest)
  | inputDigest (d : InputDigest)
  | verdict (valid : Bool)

def Call.run (fetch : Fetcher) : Call scheme → EStateM TxError Draft Answer
  | .legacyDigest index redeem =>
    .digest <$> lift fun tx => ofExcept (tx.legacyDigest fetch index redeem)
  | .witnessDigest index redeem witnessScript =>
    .digest <$> lift fun tx => tx.witnessDigest fetch index redeem witnessScript
  | .wholeHashes =>
    (fun (outPoints, sequences, outputs) => .hashes outPoints sequences outputs) <$>
      lift fun tx => tx.wholeHashes
  | .inputDigest index => .inputDigest <$> lift fun tx => tx.inputDigest fetch index
  | .verifyInput index => .verdict <$> lift fun tx => tx.verifyInput scheme fetch index
  | .verify => .verdict <$> lift fun tx => tx.verify scheme fetch
  | .signInput index secret compressed =>
    .verdict <$> Draft.signInput scheme fetch index secret compressed

/-- The answer of a call, and the transaction after it. -/
def Call.perform (fetch : Fetcher) (c : Call scheme) (d : Draft) : Except TxError Answer × Draft :=
  match c.run fetch d with
  | .ok a d => (.ok a, d)
  | .error e d => (.error e, d)

/-- A transaction of which no hash is kept. -/
def fresh (tx : Transaction) : Draft :=
  ⟨tx, {}⟩

/-- The hashes that a draft keeps are up to date. -/
def UpToDate (d : Draft) : Prop :=
  d.memo.UpToDate d.tx

theorem upToDate_fresh (tx : Transaction) : (fresh tx).UpToDate :=
  DigestMemo.upToDate_empty tx

/-- The drafts of a transaction that are up to date. -/
def Of (tx : Transaction) (d : Draft) : Prop :=
  d.tx = tx ∧ d.UpToDate

theorem lift_eq_outcome {α : Type} {f : Transaction → DigestM α} {r : Except TxError α}
    {memo : DigestMemo} {d : Draft} (h : f d.tx d.memo = outcome r memo) :
    lift f d = outcome r { d with memo } := by
  unfold lift
  rw [h]
  cases r <;> rfl

theorem settled_lift {α : Type} {tx : Transaction} {f : Transaction → DigestM α}
    (h : DigestM.Transparent tx (f tx)) : Settled (Of tx) (Of tx) (lift f) := by
  obtain ⟨r, hr⟩ := h
  refine ⟨r, ?_⟩
  rintro d ⟨rfl, hmemo⟩
  obtain ⟨memo', hmemo', hrun⟩ := hr d.memo hmemo
  exact ⟨{ d with memo := memo' }, ⟨rfl, hmemo'⟩, lift_eq_outcome hrun⟩

theorem settled_signInput (tx : Transaction) (index : Nat) (secret : scheme.Secret)
    (compressed : Bool) :
    ∃ tx', Settled (Of tx) (Of tx') (signInput scheme fetch index secret compressed) := by
  cases hsigned : tx.signedScript scheme fetch index secret compressed with
  | error e =>
    refine ⟨tx, .error e, fun d hd => ⟨d, hd, ?_⟩⟩
    simp only [signInput_eq, hd.1, hsigned, outcome]
  | ok script =>
    obtain ⟨r, hr⟩ := settled_lift (f := fun tx => tx.verifyInput scheme fetch index)
      ((tx.withScript index script).transparent_verifyInput index)
    refine ⟨tx.withScript index script, r, ?_⟩
    rintro d ⟨rfl, hmemo⟩
    -- The new script makes no hash out of date, and the verdict may fill the memo further.
    obtain ⟨d', hd', hrun⟩ := hr { d with tx := d.tx.withScript index script }
      ⟨rfl, Transaction.upToDate_withScript hmemo index script⟩
    exact ⟨d', hd', by simpa only [signInput_eq, hsigned] using hrun⟩

/-- From all drafts of a transaction that are up to date a call gives one answer, and it comes to
drafts of one transaction that are up to date. -/
theorem Call.settled_run (fetch : Fetcher) (c : Call scheme) (tx : Transaction) :
    ∃ tx', Settled (Of tx) (Of tx') (c.run fetch) := by
  cases c with
  | legacyDigest index redeem =>
    have h : DigestM.Transparent tx (ofExcept (tx.legacyDigest fetch index redeem)) := .ofExcept _
    have hdigest := settled_lift (f := fun tx => ofExcept (tx.legacyDigest fetch index redeem)) h
    exact ⟨tx, hdigest.map _⟩
  | witnessDigest index redeem witnessScript =>
    exact ⟨tx, (settled_lift (Transaction.transparent_witnessDigest _ _ _)).map _⟩
  | wholeHashes => exact ⟨tx, (settled_lift Transaction.transparent_wholeHashes).map _⟩
  | inputDigest index => exact ⟨tx, (settled_lift (Transaction.transparent_inputDigest _)).map _⟩
  | verifyInput index => exact ⟨tx, (settled_lift (Transaction.transparent_verifyInput _)).map _⟩
  | verify => exact ⟨tx, (settled_lift Transaction.transparent_verify).map _⟩
  | signInput index secret compressed =>
    obtain ⟨tx', h⟩ := settled_signInput tx index secret compressed
    exact ⟨tx', h.map _⟩

theorem Call.perform_eq_fresh (fetch : Fetcher) (c : Call scheme) {d : Draft} (h : d.UpToDate) :
    (c.perform fetch d).1 = (c.perform fetch (fresh d.tx)).1 ∧
      (c.perform fetch d).2.tx = (c.perform fetch (fresh d.tx)).2.tx ∧
      (c.perform fetch d).2.UpToDate := by
  obtain ⟨tx, r, hrun⟩ := c.settled_run fetch d.tx
  have hperform : ∀ d₁, Of d.tx d₁ → ∃ d₂, Of tx d₂ ∧ c.perform fetch d₁ = (r, d₂) := by
    intro d₁ hd₁
    obtain ⟨d₂, hd₂, heq⟩ := hrun d₁ hd₁
    refine ⟨d₂, hd₂, ?_⟩
    unfold Call.perform
    rw [heq]
    cases r <;> rfl
  obtain ⟨kept, ⟨hkept, hup⟩, heq⟩ := hperform d ⟨rfl, h⟩
  obtain ⟨new, ⟨hnew, -⟩, heq'⟩ := hperform (fresh d.tx) ⟨rfl, upToDate_fresh d.tx⟩
  rw [heq, heq']
  exact ⟨rfl, hkept.trans hnew.symm, hup⟩

/-- What is done with the transactions at hand: one of them is called, or copied with its hashes. -/
inductive Action (scheme : SignatureScheme) where
  | call (which : Nat) (c : Call scheme)
  | clone (which : Nat)

/-- Does something with the transactions at hand. Only calls are answered. -/
def Action.perform (fetch : Fetcher) (a : Action scheme) :
    StateM (List Draft) (Option (Except TxError Answer)) := fun ds =>
  match a with
  | .call which c =>
    match ds[which]? with
    | some d =>
      let (answer, d) := c.perform fetch d
      (some answer, ds.set which d)
    | none => (none, ds)
  | .clone which => (none, ds ++ ds[which]?.toList)

/-- Does something with the transactions at hand when no hash is ever kept. -/
def Action.performFresh (fetch : Fetcher) (a : Action scheme) :
    StateM (List Transaction) (Option (Except TxError Answer)) := fun txs =>
  let (answer, ds) := a.perform fetch (txs.map fresh)
  (answer, ds.map Draft.tx)

theorem map_tx_fresh (txs : List Transaction) : (txs.map fresh).map Draft.tx = txs := by
  simp [fresh, Function.comp_def]

theorem Action.perform_eq_fresh (fetch : Fetcher) (a : Action scheme) {ds : List Draft}
    (h : ∀ d ∈ ds, d.UpToDate) :
    (a.perform fetch ds).1 = (a.performFresh fetch (ds.map Draft.tx)).1 ∧
      (a.perform fetch ds).2.map Draft.tx = (a.performFresh fetch (ds.map Draft.tx)).2 ∧
      ∀ d ∈ (a.perform fetch ds).2, d.UpToDate := by
  cases a with
  | call which c =>
    cases hd : ds[which]? with
    | none => simpa [perform, performFresh, hd, fresh] using h
    | some d =>
      obtain ⟨hanswer, htx, hup⟩ := c.perform_eq_fresh fetch (h d (List.mem_of_getElem? hd))
      simp only [perform, performFresh, List.getElem?_map, hd, Option.map_some, List.map_set,
        map_tx_fresh, hanswer, htx, true_and]
      intro d' hd'
      rcases List.mem_or_eq_of_mem_set hd' with hmem | rfl
      · exact h d' hmem
      · exact hup
  | clone which =>
    cases hd : ds[which]? with
    | none => simpa [perform, performFresh, hd, fresh] using h
    | some d =>
      have hup := h d (List.mem_of_getElem? hd)
      simpa [perform, performFresh, hd, fresh, or_imp, forall_and] using ⟨h, hup⟩

theorem perform_actions_eq_fresh (fetch : Fetcher) (actions : List (Action scheme))
    {ds : List Draft} (h : ∀ d ∈ ds, d.UpToDate) :
    (actions.mapM (Action.perform fetch) ds).1 =
        (actions.mapM (Action.performFresh fetch) (ds.map Draft.tx)).1 ∧
      (actions.mapM (Action.perform fetch) ds).2.map Draft.tx =
        (actions.mapM (Action.performFresh fetch) (ds.map Draft.tx)).2 := by
  induction actions generalizing ds with
  | nil => exact ⟨rfl, rfl⟩
  | cons a actions ih =>
    obtain ⟨hanswer, htxs, hup⟩ := a.perform_eq_fresh fetch h
    obtain ⟨hanswers, hrest⟩ := ih hup
    rw [htxs] at hanswers hrest
    simp only [List.mapM_cons]
    exact ⟨congrArg₂ List.cons hanswer hanswers, hrest⟩

/-- What is kept shows in no answer. Whatever is done with transactions of which no hash is kept at
first, each call is answered as on a transaction with the same fields of which no hash is kept, and
it leaves the same fields. -/
theorem actions_answered_as_fresh (scheme : SignatureScheme) (fetch : Fetcher)
    (actions : List (Action scheme)) (txs : List Transaction) :
    (actions.mapM (Action.perform fetch) (txs.map fresh)).1 =
        (actions.mapM (Action.performFresh fetch) txs).1 ∧
      (actions.mapM (Action.perform fetch) (txs.map fresh)).2.map Draft.tx =
        (actions.mapM (Action.performFresh fetch) txs).2 := by
  have hup : ∀ d ∈ txs.map fresh, d.UpToDate := by
    simp only [List.mem_map, forall_exists_index, and_imp, forall_apply_eq_imp_iff₂]
    exact fun tx _ => upToDate_fresh tx
  simpa only [map_tx_fresh] using perform_actions_eq_fresh fetch actions hup

end Draft

end BitcoinSpend

import BitcoinSpend.Proofs.Spend.Verify
import BitcoinSpend.Proofs.Transaction.Memo
import BitcoinSpend.Proofs.Transaction.SignedText
import Mathlib.Data.List.Nodup
import Mathlib.Data.Set.Function

namespace BitcoinSpend

/-- A plain digest commits to the script code and, if that is not empty, to the position of the
input. -/
structure PlainCommitment where
  version : Int32
  lockTime : UInt32
  inputs : List (OutPoint × UInt32)
  outputs : List (Int64 × Bytes)
  code : Bytes
  index : Option Nat
deriving DecidableEq

/-- A witness digest commits to the input as it is and to the amount that it spends. -/
structure WitnessCommitment where
  version : Int32
  lockTime : UInt32
  outPoints : List OutPoint
  sequences : List UInt32
  outPoint : OutPoint
  sequence : UInt32
  code : Bytes
  amount : Int64
  outputs : List (Int64 × Bytes)
deriving DecidableEq

/-- What a digest is asked for: an input of a transaction, with the scripts that stand in for the
one that locks the spent output. -/
structure DigestQuery where
  tx : Transaction
  fetch : Fetcher
  index : Nat
  redeem : Option Script
  witnessScript : Option Script

namespace DigestQuery

def legacyDigest (q : DigestQuery) : Except TxError Digest :=
  q.tx.legacyDigest q.fetch q.index q.redeem

def witnessDigest (q : DigestQuery) : DigestM Digest :=
  q.tx.witnessDigest q.fetch q.index q.redeem q.witnessScript

/-- The script code of the plain digest. -/
def legacyCode (q : DigestQuery) : Except TxError Script := do
  let i ← q.tx.input q.index
  match q.redeem with
  | some script => return script
  | none => i.locking q.fetch q.tx.testnet

/-- What the plain digest hashes. -/
def legacyText (q : DigestQuery) : Except TxError Bytes := do
  let code ← q.legacyCode
  (q.tx.legacyPreimage q.index code).mapError fun e => .wire (.script e)

theorem legacyDigest_eq (q : DigestQuery) : q.legacyDigest = hash256 <$> q.legacyText := by
  unfold legacyDigest legacyText legacyCode Transaction.legacyDigest
  cases q.tx.input q.index with
  | error e => rfl
  | ok i =>
    cases q.redeem with
    | none =>
      simp only [map_bind, bind_assoc]
      rfl
    | some script => rfl

/-- What the witness digest hashes last. -/
def witnessText (q : DigestQuery) : Except TxError Bytes :=
  q.tx.witnessText q.fetch q.index q.redeem q.witnessScript

def plainCommitment (q : DigestQuery) : Except TxError PlainCommitment := do
  let code ← q.legacyCode
  let codeBytes ← code.bytes.mapError fun e => .wire (.script e)
  let outputs ← q.tx.payments.mapError fun e => .wire (.script e)
  return {
    version := q.tx.version
    lockTime := q.tx.lockTime
    inputs := q.tx.inputs.map fun i => (i.outPoint, i.sequence)
    outputs
    code := codeBytes
    index := code.signedIndex q.index }

def witnessCommitment (q : DigestQuery) : Except TxError WitnessCommitment := do
  let i ← q.tx.input q.index
  let code ← q.tx.witnessCode q.fetch i q.redeem q.witnessScript
  let amount ← i.amount q.fetch q.tx.testnet
  let outputs ← q.tx.payments.mapError fun e => .wire (.script e)
  return {
    version := q.tx.version
    lockTime := q.tx.lockTime
    outPoints := q.tx.inputs.map Input.outPoint
    sequences := q.tx.inputs.map Input.sequence
    outPoint := i.outPoint
    sequence := i.sequence
    code
    amount
    outputs }

/-- The text that the plain digest hashes. -/
def legacyTexts (q : DigestQuery) : Set Bytes :=
  { bs | q.legacyText = .ok bs }

/-- The texts that the witness digest hashes: three of the whole transaction, and one of their
hashes. -/
def witnessTexts (q : DigestQuery) : Set Bytes :=
  { bs | bs = q.tx.inputs.flatMap (fun i => i.outPoint.bytes) ∨
    bs = q.tx.inputs.flatMap (fun i => Bytes.ofUInt32 i.sequence) ∨
    joinBytes Output.bytes q.tx.outputs = .ok bs ∨ q.witnessText = .ok bs }

end DigestQuery

/-- Texts that a machine can hold, and that the hash tells apart. -/
structure ToldApart (texts : Set Bytes) : Prop where
  length_lt : ∀ bs ∈ texts, bs.length < UInt64.size
  injOn : Set.InjOn hash256 texts

theorem Transaction.input_lt {tx : Transaction} {index : Nat} {i : Input}
    (h : tx.input index = .ok i) : index < tx.inputs.length := by
  unfold Transaction.input at h
  split at h
  next hi => exact (List.getElem?_eq_some_iff.mp hi).1
  next => cases h

namespace DigestQuery

variable {q q₁ q₂ : DigestQuery}

theorem index_lt_of_legacyCode {code : Script} (h : q.legacyCode = .ok code) :
    q.index < q.tx.inputs.length := by
  simp only [legacyCode, Except.bind_eq_ok_iff] at h
  obtain ⟨i, hi, _⟩ := h
  exact Transaction.input_lt hi

theorem legacyText_eq_ok {bs : Bytes} (h : q.legacyText = .ok bs) :
    ∃ code t, q.legacyCode = .ok code ∧ PlainText.Of t q.tx q.index code ∧ bs = t.bytes := by
  simp only [legacyText, Except.bind_eq_ok_iff, mapError_eq_ok_iff] at h
  obtain ⟨code, hcode, hpreimage⟩ := h
  obtain ⟨t, ht, rfl⟩ := PlainText.exists_of_legacyPreimage hpreimage
  exact ⟨code, t, hcode, ht, rfl⟩

theorem legacyDigest_eq_ok {z : Digest} (h : q.legacyDigest = .ok z) :
    ∃ bs, q.legacyText = .ok bs ∧ hash256 bs = z := by
  rw [legacyDigest_eq] at h
  cases htext : q.legacyText with
  | error e => simp [htext] at h
  | ok bs =>
    rw [htext] at h
    exact ⟨bs, rfl, Except.ok.inj h⟩

theorem answers_witnessDigest (q : DigestQuery) :
    DigestM.Answers q.tx q.witnessDigest (hash256 <$> q.witnessText) :=
  Transaction.answers_witnessDigest q.index q.redeem q.witnessScript

theorem witnessDigest_eq_ok {memo memo' : DigestMemo} (hmemo : memo.UpToDate q.tx) {z : Digest}
    (h : q.witnessDigest memo = .ok z memo') : ∃ bs, q.witnessText = .ok bs ∧ hash256 bs = z := by
  obtain ⟨_, _, heq⟩ := q.answers_witnessDigest memo hmemo
  rw [heq] at h
  cases htext : q.witnessText with
  | error e =>
    rw [htext] at h
    cases h
  | ok bs =>
    rw [htext] at h
    cases h
    exact ⟨bs, rfl, rfl⟩

theorem plainCommitment_eq {t : PlainText} {code : Script} {body : Bytes}
    (hcode : q.legacyCode = .ok code) (ht : t.Of q.tx q.index code) (hbody : code.body = .ok body) :
    q.plainCommitment = .ok {
      version := t.version
      lockTime := t.lockTime
      inputs := t.inputs.map fun s => (s.outPoint, s.sequence)
      outputs := t.outputs.map fun p => (p.amount, Varint.lengthPrefixed p.body)
      code := Varint.lengthPrefixed body
      index := code.signedIndex q.index } := by
  have hbytes := Script.bytes_eq_ok_iff.mpr ⟨body, hbody, rfl⟩
  simp only [plainCommitment, Except.bind_eq_ok_iff, Except.pure_eq_ok_iff, mapError_eq_ok_iff]
  refine ⟨code, hcode, _, hbytes, _, Transaction.payments_of_pays ht.outputs, ?_⟩
  rw [ht.version, ht.lockTime, ht.signedInputs_eq]

/-- A text is the plain one of no more than one spend. -/
theorem plainCommitment_of_text {bs : Bytes} (hlen : bs.length < UInt64.size)
    (h₁ : q₁.legacyText = .ok bs) (h₂ : q₂.legacyText = .ok bs) :
    ∃ c, q₁.plainCommitment = .ok c ∧ q₂.plainCommitment = .ok c := by
  obtain ⟨code₁, t, hcode₁, ht₁, rfl⟩ := legacyText_eq_ok h₁
  obtain ⟨code₂, t', hcode₂, ht₂, heq⟩ := legacyText_eq_ok h₂
  obtain rfl := PlainText.bytes_inj (PlainText.fits_of_length_lt hlen)
    (PlainText.fits_of_length_lt (heq ▸ hlen)) heq
  have hlt₁ := index_lt_of_legacyCode hcode₁
  obtain ⟨hbody, hindex⟩ := ht₁.code_agrees ht₂ hlt₁ (index_lt_of_legacyCode hcode₂)
  have hat := ht₁.body_eq (n := q₁.index) (by rwa [ht₁.length_eq])
  rw [Script.signedAt, if_pos rfl] at hat
  refine ⟨_, plainCommitment_eq hcode₁ ht₁ hat, ?_⟩
  rw [hindex]
  exact plainCommitment_eq hcode₂ ht₂ (hbody ▸ hat)

theorem witnessText_eq_ok {bs : Bytes} (h : q.witnessText = .ok bs) :
    ∃ i code amount text, q.tx.input q.index = .ok i ∧
      q.tx.witnessCode q.fetch i q.redeem q.witnessScript = .ok code ∧
        i.amount q.fetch q.tx.testnet = .ok amount ∧
          joinBytes Output.bytes q.tx.outputs = .ok text ∧
            bs = q.tx.witnessPreimage i code amount q.tx.hashOutPoints q.tx.hashSequences
              (hash256 text) := by
  simp only [witnessText, Transaction.witnessText, Transaction.hashOutputs, Except.bind_eq_ok_iff,
    Except.pure_eq_ok_iff, mapError_eq_ok_iff] at h
  obtain ⟨i, hi, code, hcode, amount, hamount, _, ⟨text, htext, rfl⟩, rfl⟩ := h
  exact ⟨i, code, amount, text, hi, hcode, hamount, htext, rfl⟩

/-- Outputs that give one text pay the same. -/
theorem payments_of_text {tx tx' : Transaction} {bs : Bytes} (hlen : bs.length < UInt64.size)
    (h : joinBytes Output.bytes tx.outputs = .ok bs)
    (h' : joinBytes Output.bytes tx'.outputs = .ok bs) :
    ∃ paid, tx.payments = .ok paid ∧ tx'.payments = .ok paid := by
  obtain ⟨ps, hps, rfl⟩ := exists_pays_of_joinBytes h
  obtain ⟨ps', hps', heq⟩ := exists_pays_of_joinBytes h'
  have hfits : ∀ {ps : List Payment}, (ps.flatMap Payment.text).length < UInt64.size →
      ∀ p ∈ ps, p.body.length < UInt64.size := by
    intro ps hlen p hp
    have hbody := p.length_lt_text
    have htext := length_le_flatMap (f := Payment.text) hp
    omega
  obtain rfl := flatMap_inj Payment.prefixFree_text Payment.text_ne_nil (hfits hlen)
    (hfits (heq ▸ hlen)) heq
  exact ⟨_, Transaction.payments_of_pays hps, Transaction.payments_of_pays hps'⟩

theorem outPoints_of_text {inputs inputs' : List Input}
    (h : inputs.flatMap (fun i => i.outPoint.bytes) = inputs'.flatMap fun i => i.outPoint.bytes) :
    inputs.map Input.outPoint = inputs'.map Input.outPoint := by
  refine flatMap_inj OutPoint.prefixFree_bytes ?_ (fun _ _ => trivial) (fun _ _ => trivial) ?_
  · intro o hnil
    exact Bytes.ofUInt32_ne_nil _ (List.append_eq_nil_iff.mp hnil).2
  · simpa only [List.flatMap_map] using h

theorem sequences_of_text {inputs inputs' : List Input}
    (h : inputs.flatMap (fun i => Bytes.ofUInt32 i.sequence) =
      inputs'.flatMap fun i => Bytes.ofUInt32 i.sequence) :
    inputs.map Input.sequence = inputs'.map Input.sequence := by
  refine flatMap_inj prefixFree_ofUInt32 ?_ (fun _ _ => trivial) (fun _ _ => trivial) ?_
  · intro w hnil
    exact Bytes.ofUInt32_ne_nil w hnil
  · simpa only [List.flatMap_map] using h

theorem witnessCommitment_of_text {bs : Bytes}
    (hapart : ToldApart (q₁.witnessTexts ∪ q₂.witnessTexts)) (h₁ : q₁.witnessText = .ok bs)
    (h₂ : q₂.witnessText = .ok bs) :
    ∃ c, q₁.witnessCommitment = .ok c ∧ q₂.witnessCommitment = .ok c := by
  obtain ⟨i₁, code₁, amount₁, text₁, hi₁, hcode₁, hamount₁, htext₁, rfl⟩ := witnessText_eq_ok h₁
  obtain ⟨i₂, code₂, amount₂, text₂, hi₂, hcode₂, hamount₂, htext₂, heq⟩ := witnessText_eq_ok h₂
  obtain ⟨⟨hversion, hlockTime⟩, ⟨houtPoints, hsequences, houtputs⟩, ⟨houtPoint, hsequence⟩, rfl,
    rfl⟩ := Transaction.witnessPreimage_inj heq
  have houtPoints := outPoints_of_text
    (hapart.injOn (.inl (.inl rfl)) (.inr (.inl rfl)) houtPoints)
  have hsequences := sequences_of_text
    (hapart.injOn (.inl (.inr (.inl rfl))) (.inr (.inr (.inl rfl))) hsequences)
  have htext : text₁ ∈ q₁.witnessTexts := .inr (.inr (.inl htext₁))
  obtain rfl := hapart.injOn (.inl htext) (.inr (.inr (.inr (.inl htext₂)))) houtputs
  obtain ⟨paid, hpaid₁, hpaid₂⟩ :=
    payments_of_text (hapart.length_lt text₁ (.inl htext)) htext₁ htext₂
  simp only [witnessCommitment, Except.bind_eq_ok_iff, Except.pure_eq_ok_iff, mapError_eq_ok_iff]
  refine ⟨_, ⟨i₁, hi₁, code₁, hcode₁, amount₁, hamount₁, paid, hpaid₁, rfl⟩,
    i₂, hi₂, code₁, hcode₂, amount₁, hamount₂, paid, hpaid₂, ?_⟩
  rw [hversion, hlockTime, houtPoints, hsequences, houtPoint, hsequence]

/-- Equal digests commit to the same spend. The hash is taken to tell apart the texts that are
hashed for the two digests, and nothing else; witness digests are found with memos that are up to
date. -/
theorem digests_commit (q₁ q₂ : DigestQuery) :
    (ToldApart (q₁.legacyTexts ∪ q₂.legacyTexts) → ∀ z, q₁.legacyDigest = .ok z →
      q₂.legacyDigest = .ok z → ∃ c, q₁.plainCommitment = .ok c ∧ q₂.plainCommitment = .ok c) ∧
    (ToldApart (q₁.witnessTexts ∪ q₂.witnessTexts) → ∀ memo₁ memo₂, memo₁.UpToDate q₁.tx →
      memo₂.UpToDate q₂.tx → ∀ z memo₁' memo₂', q₁.witnessDigest memo₁ = .ok z memo₁' →
        q₂.witnessDigest memo₂ = .ok z memo₂' →
          ∃ c, q₁.witnessCommitment = .ok c ∧ q₂.witnessCommitment = .ok c) := by
  constructor
  · intro hapart z h₁ h₂
    obtain ⟨bs, hbs, hz⟩ := legacyDigest_eq_ok h₁
    obtain ⟨bs', hbs', hz'⟩ := legacyDigest_eq_ok h₂
    obtain rfl := hapart.injOn (.inl hbs) (.inr hbs') (hz.trans hz'.symm)
    exact plainCommitment_of_text (hapart.length_lt bs (.inl hbs)) hbs hbs'
  · intro hapart memo₁ memo₂ hmemo₁ hmemo₂ z memo₁' memo₂' h₁ h₂
    obtain ⟨bs, hbs, hz⟩ := witnessDigest_eq_ok hmemo₁ h₁
    obtain ⟨bs', hbs', hz'⟩ := witnessDigest_eq_ok hmemo₂ h₂
    -- The last texts agree, and with them the three hashes that they hold.
    obtain rfl := hapart.injOn (.inl (.inr (.inr (.inr hbs)))) (.inr (.inr (.inr (.inr hbs'))))
      (hz.trans hz'.symm)
    exact witnessCommitment_of_text hapart hbs hbs'

/-- A spend of an output that pays to the hash of a key in the witness, unlocked by a script. -/
def unlockedBy (script : Script) : DigestQuery where
  tx := .spending script []
  fetch := Transaction.holding (.payToWitnessKeyHash (FixedBytes.zero 20))
  index := 0
  redeem := none
  witnessScript := none

/-- The text that its plain digest hashes, whatever the script is. -/
def unlockedLegacyText : Bytes :=
  (unlockedBy []).legacyText.toOption.getD []

/-- The text that its witness digest hashes last, whatever the script is. -/
def unlockedWitnessText : Bytes :=
  (unlockedBy []).witnessText.toOption.getD []

/-- The texts of its out point, its sequence and its output, and the one of their hashes. -/
def unlockedWitnessTexts : List Bytes :=
  [(unlockedBy []).tx.inputs.flatMap fun i => i.outPoint.bytes,
    (unlockedBy []).tx.inputs.flatMap fun i => Bytes.ofUInt32 i.sequence,
    [0x90, 0x5f, 1, 0, 0, 0, 0, 0, 1, 0x51], unlockedWitnessText]

theorem legacyText_unlockedBy (script : Script) :
    (unlockedBy script).legacyText = .ok unlockedLegacyText :=
  rfl

theorem witnessText_unlockedBy (script : Script) :
    (unlockedBy script).witnessText = .ok unlockedWitnessText :=
  rfl

theorem witnessTexts_unlockedBy (script : Script) {bs : Bytes}
    (h : bs ∈ (unlockedBy script).witnessTexts) : bs ∈ unlockedWitnessTexts := by
  have houtputs : joinBytes Output.bytes (unlockedBy script).tx.outputs =
      .ok [0x90, 0x5f, 1, 0, 0, 0, 0, 0, 1, 0x51] := rfl
  rcases h with rfl | rfl | h | h
  · exact List.mem_of_getElem? (i := 0) rfl
  · exact List.mem_of_getElem? (i := 1) rfl
  · cases houtputs.symm.trans h
    exact List.mem_of_getElem? (i := 2) rfl
  · cases (witnessText_unlockedBy script).symm.trans h
    exact List.mem_of_getElem? (i := 3) rfl

theorem toldApart_of_nodup {texts : Set Bytes} (bss : List Bytes) (h : ∀ bs ∈ texts, bs ∈ bss)
    (hlen : ∀ bs ∈ bss, bs.length < UInt64.size) (hnodup : (bss.map hash256).Nodup) :
    ToldApart texts :=
  ⟨fun bs hbs => hlen bs (h bs hbs), fun bs hbs cs hcs heq =>
    List.inj_on_of_nodup_map hnodup (h bs hbs) (h cs hcs) heq⟩

theorem exists_witnessDigest_of_text {bs : Bytes} (h : q.witnessText = .ok bs) :
    ∃ memo', q.witnessDigest {} = .ok (hash256 bs) memo' := by
  obtain ⟨memo', -, heq⟩ := q.answers_witnessDigest {} (DigestMemo.upToDate_empty q.tx)
  rw [h] at heq
  exact ⟨memo', heq⟩

theorem digests_commit_beside_unlocking :
    (unlockedBy []).tx ≠ (unlockedBy [.op .pushOne]).tx ∧
      (∃ c, (unlockedBy []).plainCommitment = .ok c ∧
        (unlockedBy [.op .pushOne]).plainCommitment = .ok c) ∧
      ∃ c, (unlockedBy []).witnessCommitment = .ok c ∧
        (unlockedBy [.op .pushOne]).witnessCommitment = .ok c := by
  obtain ⟨hplain, hwitness⟩ := digests_commit (unlockedBy []) (unlockedBy [.op .pushOne])
  have hlegacy (script : Script) :
      (unlockedBy script).legacyDigest = .ok (hash256 unlockedLegacyText) := by
    rw [legacyDigest_eq, legacyText_unlockedBy]
    rfl
  obtain ⟨memo₁, hdigest₁⟩ := exists_witnessDigest_of_text (witnessText_unlockedBy [])
  obtain ⟨memo₂, hdigest₂⟩ := exists_witnessDigest_of_text (witnessText_unlockedBy [.op .pushOne])
  refine ⟨by decide, hplain ?_ _ (hlegacy _) (hlegacy _), hwitness ?_ {} {}
    (DigestMemo.upToDate_empty _) (DigestMemo.upToDate_empty _) _ _ _ hdigest₁ hdigest₂⟩
  · refine toldApart_of_nodup [unlockedLegacyText] ?_ (by decide +kernel) (List.nodup_singleton _)
    rintro bs (h | h)
    · exact List.mem_singleton.mpr (Except.ok.inj h).symm
    · exact List.mem_singleton.mpr (Except.ok.inj h).symm
  · refine toldApart_of_nodup unlockedWitnessTexts ?_ (by decide +kernel) (by decide +kernel)
    rintro bs (h | h)
    · exact witnessTexts_unlockedBy _ h
    · exact witnessTexts_unlockedBy _ h

end DigestQuery

end BitcoinSpend

import BitcoinSpend.Proofs.Machine.Success
import BitcoinSpend.Proofs.Transaction.RoundTrip
import BitcoinSpend.Transaction.Digest

namespace BitcoinSpend

section

variable {α β : Type} {text : α → Bytes} {P : α → Prop} {xs ys : List α}

/-- What stands behind the text of an item does not change how the text is read. -/
def PrefixFree (text : α → Bytes) (P : α → Prop) : Prop :=
  ∀ ⦃x y⦄, P x → P y → ∀ {rest rest'}, text x ++ rest = text y ++ rest' → x = y ∧ rest = rest'

theorem flatMap_append_inj (htext : PrefixFree text P) (hxs : ∀ x ∈ xs, P x) (hys : ∀ y ∈ ys, P y)
    (hlen : xs.length = ys.length) {rest rest' : Bytes}
    (h : xs.flatMap text ++ rest = ys.flatMap text ++ rest') : xs = ys ∧ rest = rest' := by
  induction xs generalizing ys with
  | nil =>
    obtain rfl := List.length_eq_zero_iff.mp hlen.symm
    exact ⟨rfl, h⟩
  | cons x xs ih =>
    cases ys with
    | nil => simp at hlen
    | cons y ys =>
      rw [List.forall_mem_cons] at hxs hys
      simp only [List.flatMap_cons, List.append_assoc] at h
      obtain ⟨rfl, htail⟩ := htext hxs.1 hys.1 h
      obtain ⟨rfl, hrest⟩ := ih hxs.2 hys.2 (Nat.succ.inj hlen) htail
      exact ⟨rfl, hrest⟩

/-- Items without their count are told apart as well, if nothing stands behind them. -/
theorem flatMap_inj (htext : PrefixFree text P) (hne : ∀ x, text x ≠ []) (hxs : ∀ x ∈ xs, P x)
    (hys : ∀ y ∈ ys, P y) (h : xs.flatMap text = ys.flatMap text) : xs = ys := by
  induction xs generalizing ys with
  | nil =>
    cases ys with
    | nil => rfl
    | cons y ys => exact absurd (List.append_eq_nil_iff.mp h.symm).1 (hne y)
  | cons x xs ih =>
    cases ys with
    | nil => exact absurd (List.append_eq_nil_iff.mp h).1 (hne x)
    | cons y ys =>
      rw [List.forall_mem_cons] at hxs hys
      simp only [List.flatMap_cons] at h
      obtain ⟨rfl, htail⟩ := htext hxs.1 hys.1 h
      rw [ih hxs.2 hys.2 htail]

theorem joinBytes_eq_ok {f : β → Except ScriptError Bytes} {Item : β → α → Prop}
    (hf : ∀ x bs, f x = .ok bs → ∃ y, Item x y ∧ bs = text y) {xs : List β} {bs : Bytes}
    (h : joinBytes f xs = .ok bs) : ∃ ys, List.Forall₂ Item xs ys ∧ bs = ys.flatMap text := by
  induction xs generalizing bs with
  | nil =>
    cases h
    exact ⟨[], .nil, rfl⟩
  | cons x xs ih =>
    simp only [joinBytes, Except.bind_eq_ok_iff, Except.pure_eq_ok_iff] at h
    obtain ⟨front, hfront, back, hback, rfl⟩ := h
    obtain ⟨y, hxy, rfl⟩ := hf x front hfront
    obtain ⟨ys, hys, rfl⟩ := ih hback
    exact ⟨y :: ys, .cons hxy hys, rfl⟩

theorem map_eq_map_of_forall₂ {γ δ : Type} {R : γ → δ → Prop} {f : γ → β} {g : δ → β}
    (hfg : ∀ x y, R x y → f x = g y) {xs : List γ} {ys : List δ} (h : List.Forall₂ R xs ys) :
    xs.map f = ys.map g := by
  induction h with
  | nil => rfl
  | cons hxy _ ih => rw [List.map_cons, List.map_cons, hfg _ _ hxy, ih]

end

theorem Command.encode_ne_nil (c : Command) : c.encode ≠ .ok [] := by
  cases c with
  | op code => simp [encode]
  | data bs =>
    simp only [encode]
    split_ifs <;> simp

namespace Script

theorem body_eq_ok_nil_iff {s : Script} : s.body = .ok [] ↔ s = [] := by
  constructor
  · intro h
    cases s with
    | nil => rfl
    | cons c cs =>
      simp only [body, Except.bind_eq_ok_iff, Except.pure_eq_ok_iff] at h
      obtain ⟨front, hfront, back, _, hnil⟩ := h
      obtain ⟨rfl, _⟩ := List.append_eq_nil_iff.mp hnil
      exact absurd hfront c.encode_ne_nil
  · rintro rfl
    rfl

theorem bytes_eq_ok_iff {s : Script} {bs : Bytes} :
    s.bytes = .ok bs ↔ ∃ body, s.body = .ok body ∧ Varint.lengthPrefixed body = bs := by
  simp only [bytes, Except.bind_eq_ok_iff, Except.pure_eq_ok_iff]

end Script

theorem OutPoint.prefixFree_bytes : PrefixFree OutPoint.bytes fun _ => True :=
  fun _ _ _ _ _ _ h => (OutPoint.reads_read.unique rfl rfl h).2

theorem Bytes.ofUInt32_ne_nil (w : UInt32) : Bytes.ofUInt32 w ≠ [] := by
  intro h
  simpa [Bytes.ofUInt32] using congrArg List.length h

theorem prefixFree_ofUInt32 : PrefixFree Bytes.ofUInt32 fun _ => True :=
  fun _ _ _ _ _ _ h => (Reader.reads_uint32.unique rfl rfl h).2

/-- What an output pays: an amount, to a script with some body. -/
structure Payment where
  amount : Int64
  body : Bytes

namespace Payment

def text (p : Payment) : Bytes :=
  Bytes.ofInt64 p.amount ++ Varint.lengthPrefixed p.body

theorem prefixFree_text : PrefixFree text fun p => p.body.length < UInt64.size := by
  intro p p' hp hp' rest rest' h
  obtain ⟨amount, body⟩ := p
  obtain ⟨amount', body'⟩ := p'
  simp only [text, List.append_assoc] at h
  obtain ⟨-, rfl, hbody⟩ := Reader.reads_int64.unique rfl rfl h
  obtain ⟨rfl, hrest⟩ := Varint.lengthPrefixed_append_inj hp hp' hbody
  exact ⟨rfl, hrest⟩

theorem length_lt_text (p : Payment) : p.body.length < p.text.length := by
  have hlen := Varint.length_lt_lengthPrefixed p.body
  simp only [text, List.length_append]
  omega

theorem text_ne_nil (p : Payment) : p.text ≠ [] :=
  List.ne_nil_of_length_pos (Nat.zero_lt_of_lt p.length_lt_text)

end Payment

/-- What is signed of an input: what it spends, a script with some body, and its sequence. -/
structure SignedInput where
  outPoint : OutPoint
  body : Bytes
  sequence : UInt32

namespace SignedInput

def text (s : SignedInput) : Bytes :=
  s.outPoint.bytes ++ Varint.lengthPrefixed s.body ++ Bytes.ofUInt32 s.sequence

theorem prefixFree_text : PrefixFree text fun s => s.body.length < UInt64.size := by
  intro s s' hs hs' rest rest' h
  obtain ⟨outPoint, body, sequence⟩ := s
  obtain ⟨outPoint', body', sequence'⟩ := s'
  simp only [text, List.append_assoc] at h
  obtain ⟨-, rfl, hbody⟩ := OutPoint.reads_read.unique rfl rfl h
  obtain ⟨rfl, hsequence⟩ := Varint.lengthPrefixed_append_inj hs hs' hbody
  obtain ⟨-, rfl, hrest⟩ := Reader.reads_uint32.unique rfl rfl hsequence
  exact ⟨rfl, hrest⟩

theorem length_lt_text (s : SignedInput) : s.body.length < s.text.length := by
  have hlen := Varint.length_lt_lengthPrefixed s.body
  simp only [text, List.length_append]
  omega

theorem text_ne_nil (s : SignedInput) : s.text ≠ [] :=
  List.ne_nil_of_length_pos (Nat.zero_lt_of_lt s.length_lt_text)

end SignedInput

structure Output.Pays (o : Output) (p : Payment) : Prop where
  amount : o.amount = p.amount
  body : o.script.body = .ok p.body

theorem exists_pays_of_joinBytes {outputs : List Output} {bs : Bytes}
    (h : joinBytes Output.bytes outputs = .ok bs) :
    ∃ ps, List.Forall₂ Output.Pays outputs ps ∧ bs = ps.flatMap Payment.text := by
  refine joinBytes_eq_ok (fun o bs hbs => ?_) h
  simp only [Output.bytes, Except.bind_eq_ok_iff, Except.pure_eq_ok_iff,
    Script.bytes_eq_ok_iff] at hbs
  obtain ⟨_, ⟨body, hbody, rfl⟩, rfl⟩ := hbs
  exact ⟨⟨o.amount, body⟩, ⟨rfl, hbody⟩, rfl⟩

/-- The amounts of outputs, with the scripts that lock them as bytes. -/
def Transaction.payments (tx : Transaction) : Except ScriptError (List (Int64 × Bytes)) :=
  tx.outputs.mapM fun o => do return (o.amount, ← o.script.bytes)

theorem Transaction.payments_of_pays {tx : Transaction} {ps : List Payment}
    (h : List.Forall₂ Output.Pays tx.outputs ps) :
    tx.payments = .ok (ps.map fun p => (p.amount, Varint.lengthPrefixed p.body)) := by
  unfold payments
  generalize tx.outputs = outputs at h
  induction h with
  | nil => rfl
  | cons hpays _ ih =>
    rw [List.mapM_cons, ih, Script.bytes_eq_ok_iff.mpr ⟨_, hpays.body, rfl⟩, hpays.amount]
    rfl

/-- The script that the plain digest of one input has for another. -/
def Script.signedAt (code : Script) (index n : Nat) : Script :=
  if n = index then code else []

/-- The position that the plain digest of an input tells. An empty script stands at every other
position too. -/
def Script.signedIndex (code : Script) (index : Nat) : Option Nat :=
  if code = [] then none else some index

/-- What the plain digest of one input has for each input, given with its position. -/
structure Input.Signs (index : Nat) (code : Script) (i : Input × Nat) (s : SignedInput) :
    Prop where
  outPoint : i.1.outPoint = s.outPoint
  body : (code.signedAt index i.2).body = .ok s.body
  sequence : i.1.sequence = s.sequence

theorem exists_signs_of_signedInputs {index : Nat} {code : Script} {inputs : List Input}
    {bs : Bytes} (h : Transaction.signedInputs index code inputs = .ok bs) :
    ∃ ss, List.Forall₂ (Input.Signs index code) inputs.zipIdx ss ∧
      bs = ss.flatMap SignedInput.text := by
  refine joinBytes_eq_ok (fun ⟨i, n⟩ bs hbs => ?_) h
  change i.bytesWith (code.signedAt index n) = .ok bs at hbs
  simp only [Input.bytesWith, Except.bind_eq_ok_iff, Except.pure_eq_ok_iff,
    Script.bytes_eq_ok_iff] at hbs
  obtain ⟨_, ⟨body, hbody, rfl⟩, rfl⟩ := hbs
  exact ⟨⟨i.outPoint, body, i.sequence⟩, ⟨rfl, hbody, rfl⟩, rfl⟩

/-- The parts of a text that a plain digest hashes. -/
structure PlainText where
  version : Int32
  inputs : List SignedInput
  outputs : List Payment
  lockTime : UInt32

namespace PlainText

def bytes (t : PlainText) : Bytes :=
  Bytes.ofInt32 t.version ++ Varint.encode t.inputs.length ++ t.inputs.flatMap SignedInput.text ++
    Varint.encode t.outputs.length ++ t.outputs.flatMap Payment.text ++ Bytes.ofUInt32 t.lockTime ++
    signAllWord

/-- Counts and lengths are words. -/
structure Fits (t : PlainText) : Prop where
  inputs_lt : t.inputs.length < UInt64.size
  outputs_lt : t.outputs.length < UInt64.size
  codes_lt : ∀ s ∈ t.inputs, s.body.length < UInt64.size
  lockings_lt : ∀ p ∈ t.outputs, p.body.length < UInt64.size

theorem fits_of_length_lt {t : PlainText} (h : t.bytes.length < UInt64.size) : t.Fits := by
  simp only [bytes, List.length_append] at h
  have hinputs : t.inputs.length ≤ (t.inputs.flatMap SignedInput.text).length :=
    count_le_length_flatMap SignedInput.text_ne_nil
  have houtputs : t.outputs.length ≤ (t.outputs.flatMap Payment.text).length :=
    count_le_length_flatMap Payment.text_ne_nil
  refine ⟨by omega, by omega, fun s hs => ?_, fun p hp => ?_⟩
  · have hbody := s.length_lt_text
    have htext := length_le_flatMap (f := SignedInput.text) hs
    omega
  · have hbody := p.length_lt_text
    have htext := length_le_flatMap (f := Payment.text) hp
    omega

theorem bytes_inj {t t' : PlainText} (ht : t.Fits) (ht' : t'.Fits) (h : t.bytes = t'.bytes) :
    t = t' := by
  obtain ⟨version, inputs, outputs, lockTime⟩ := t
  obtain ⟨version', inputs', outputs', lockTime'⟩ := t'
  simp only [bytes, List.append_assoc] at h
  obtain ⟨-, rfl, hins⟩ := Reader.reads_int32.unique rfl rfl h
  obtain ⟨-, hcount, hins⟩ := Varint.reads_read.unique ⟨ht.inputs_lt, rfl⟩ ⟨ht'.inputs_lt, rfl⟩ hins
  obtain ⟨rfl, houts⟩ :=
    flatMap_append_inj SignedInput.prefixFree_text ht.codes_lt ht'.codes_lt hcount hins
  obtain ⟨-, hcount, houts⟩ :=
    Varint.reads_read.unique ⟨ht.outputs_lt, rfl⟩ ⟨ht'.outputs_lt, rfl⟩ houts
  obtain ⟨rfl, hlock⟩ :=
    flatMap_append_inj Payment.prefixFree_text ht.lockings_lt ht'.lockings_lt hcount houts
  obtain ⟨-, rfl, -⟩ := Reader.reads_uint32.unique rfl rfl hlock
  rfl

/-- The parts of what the plain digest of an input hashes. -/
structure Of (t : PlainText) (tx : Transaction) (index : Nat) (code : Script) : Prop where
  version : tx.version = t.version
  inputs : List.Forall₂ (Input.Signs index code) tx.inputs.zipIdx t.inputs
  outputs : List.Forall₂ Output.Pays tx.outputs t.outputs
  lockTime : tx.lockTime = t.lockTime

theorem exists_of_legacyPreimage {tx : Transaction} {index : Nat} {code : Script} {bs : Bytes}
    (h : tx.legacyPreimage index code = .ok bs) :
    ∃ t : PlainText, t.Of tx index code ∧ bs = t.bytes := by
  simp only [Transaction.legacyPreimage, Except.bind_eq_ok_iff, Except.pure_eq_ok_iff] at h
  obtain ⟨ins, hins, outs, houts, rfl⟩ := h
  obtain ⟨signed, hsigned, rfl⟩ := exists_signs_of_signedInputs hins
  obtain ⟨paid, hpaid, rfl⟩ := exists_pays_of_joinBytes houts
  refine ⟨⟨tx.version, signed, paid, tx.lockTime⟩, ⟨rfl, hsigned, hpaid, rfl⟩, ?_⟩
  have hcount := hsigned.length_eq
  rw [List.length_zipIdx] at hcount
  simp only [bytes, hcount, hpaid.length_eq]

variable {t : PlainText} {tx tx' : Transaction} {index index' : Nat} {code code' : Script}

theorem Of.signedInputs_eq (h : t.Of tx index code) :
    (tx.inputs.map fun i => (i.outPoint, i.sequence)) =
      t.inputs.map fun s => (s.outPoint, s.sequence) := by
  calc tx.inputs.map (fun i => (i.outPoint, i.sequence))
      = tx.inputs.zipIdx.map fun x => (x.1.outPoint, x.1.sequence) := by
        conv_lhs => rw [← List.zipIdx_map_fst 0 tx.inputs, List.map_map]
        rfl
    _ = t.inputs.map fun s => (s.outPoint, s.sequence) :=
        map_eq_map_of_forall₂ (fun _ _ hs => Prod.ext hs.outPoint hs.sequence) h.inputs

theorem Of.length_eq (h : t.Of tx index code) : t.inputs.length = tx.inputs.length := by
  rw [← h.inputs.length_eq, List.length_zipIdx]

theorem Of.body_eq (h : t.Of tx index code) {n : Nat} (hn : n < t.inputs.length) :
    (code.signedAt index n).body = .ok t.inputs[n].body := by
  have hlen := h.length_eq
  have hmap := map_eq_map_of_forall₂ (f := fun x => (code.signedAt index x.2).body)
    (g := fun s => .ok s.body) (fun _ _ hs => hs.body) h.inputs
  have hat := congrArg (fun bodies => bodies[n]?) hmap
  have hn' : n < tx.inputs.length := by omega
  simpa [hn, hn'] using hat

/-- Only one input has a script in the text, unless none has: there is the script code, and there is
the index. -/
theorem Of.code_agrees (h : t.Of tx index code) (h' : t.Of tx' index' code')
    (hindex : index < tx.inputs.length) (hindex' : index' < tx'.inputs.length) :
    code.body = code'.body ∧ code.signedIndex index = code'.signedIndex index' := by
  have hslots : ∀ n < t.inputs.length,
      (code.signedAt index n).body = (code'.signedAt index' n).body :=
    fun n hn => (h.body_eq hn).trans (h'.body_eq hn).symm
  have hat := hslots index (by rwa [h.length_eq])
  have hat' := hslots index' (by rwa [h'.length_eq])
  by_cases heq : index = index'
  · subst heq
    simp only [Script.signedAt, if_true] at hat
    have hempty : code = [] ↔ code' = [] := by
      rw [← Script.body_eq_ok_nil_iff, hat, Script.body_eq_ok_nil_iff]
    exact ⟨hat, by simp only [Script.signedIndex, hempty]⟩
  -- Each code stands where the other transaction has an empty script.
  · simp only [Script.signedAt, if_true, heq, Ne.symm heq, if_false] at hat hat'
    obtain rfl := Script.body_eq_ok_nil_iff.mp hat
    obtain rfl := Script.body_eq_ok_nil_iff.mp hat'.symm
    exact ⟨rfl, rfl⟩

end PlainText

/-- Every part of this text but the script code has a width of its own. -/
theorem Transaction.witnessPreimage_inj {tx tx' : Transaction} {i i' : Input} {code code' : Bytes}
    {amount amount' : Int64} {outPoints outPoints' sequences sequences' outputs outputs' : Digest}
    (h : tx.witnessPreimage i code amount outPoints sequences outputs =
      tx'.witnessPreimage i' code' amount' outPoints' sequences' outputs') :
    (tx.version = tx'.version ∧ tx.lockTime = tx'.lockTime) ∧
      (outPoints = outPoints' ∧ sequences = sequences' ∧ outputs = outputs') ∧
      (i.outPoint = i'.outPoint ∧ i.sequence = i'.sequence) ∧ code = code' ∧ amount = amount' := by
  simp only [witnessPreimage, List.append_assoc] at h
  obtain ⟨-, hversion, h⟩ := Reader.reads_int32.unique rfl rfl h
  obtain ⟨-, houtPoints, h⟩ := (Reader.reads_fixed 32).unique rfl rfl h
  obtain ⟨-, hsequences, h⟩ := (Reader.reads_fixed 32).unique rfl rfl h
  obtain ⟨-, houtPoint, h⟩ := OutPoint.reads_read.unique rfl rfl h
  -- The script code tells no length, but what stands behind it always has the same one.
  obtain ⟨hcode, h⟩ := List.append_inj' h
    (by simp [Bytes.ofInt64, Bytes.ofUInt32, FixedBytes.length_eq])
  obtain ⟨-, hamount, h⟩ := Reader.reads_int64.unique rfl rfl h
  obtain ⟨-, hsequence, h⟩ := Reader.reads_uint32.unique rfl rfl h
  obtain ⟨-, houtputs, h⟩ := (Reader.reads_fixed 32).unique rfl rfl h
  obtain ⟨-, hlockTime, -⟩ := Reader.reads_uint32.unique rfl rfl h
  exact ⟨⟨hversion, hlockTime⟩, ⟨houtPoints, hsequences, houtputs⟩, ⟨houtPoint, hsequence⟩, hcode,
    hamount⟩

end BitcoinSpend

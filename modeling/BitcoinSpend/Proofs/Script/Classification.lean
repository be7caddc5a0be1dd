import BitcoinSpend.Proofs.Script.RoundTrip
import BitcoinSpend.Proofs.Spend.Verify

namespace BitcoinSpend

theorem Command.pushes_iff {c : Command} {n : Nat} :
    c.pushes n = true ↔ ∃ h : FixedBytes n, c = .data h.bytes := by
  cases c with
  | op code => simp [pushes]
  | data bs =>
    simp only [pushes, decide_eq_true_eq, data.injEq]
    constructor
    · intro h
      exact ⟨⟨bs, h⟩, rfl⟩
    · rintro ⟨h, rfl⟩
      exact h.length_eq

namespace Script

variable {s : Script} {t : Template}

theorem paysToKeyHash_iff : s.paysToKeyHash = true ↔ ∃ h, s = payToKeyHash h := by
  constructor
  · intro hs
    unfold paysToKeyHash at hs
    split at hs
    next =>
      simp only [Bool.and_eq_true, decide_eq_true_eq, Command.pushes_iff] at hs
      obtain ⟨⟨⟨⟨rfl, rfl⟩, h, rfl⟩, rfl⟩, rfl⟩ := hs
      exact ⟨h, rfl⟩
    next => simp at hs
  · rintro ⟨h, rfl⟩
    simp [paysToKeyHash, payToKeyHash, Command.pushes, h.length_eq]

theorem paysToScriptHash_iff : s.paysToScriptHash = true ↔ ∃ h, s = payToScriptHash h := by
  constructor
  · intro hs
    unfold paysToScriptHash at hs
    split at hs
    next =>
      simp only [Bool.and_eq_true, decide_eq_true_eq, Command.pushes_iff] at hs
      obtain ⟨⟨rfl, h, rfl⟩, rfl⟩ := hs
      exact ⟨h, rfl⟩
    next => simp at hs
  · rintro ⟨h, rfl⟩
    simp [paysToScriptHash, payToScriptHash, Command.pushes, h.length_eq]

theorem paysToWitness_iff {n : Nat} :
    s.paysToWitness n = true ↔ ∃ h : FixedBytes n, s = [.op .zero, .data h.bytes] := by
  constructor
  · intro hs
    unfold paysToWitness at hs
    split at hs
    next =>
      simp only [Bool.and_eq_true, decide_eq_true_eq, Command.pushes_iff] at hs
      obtain ⟨rfl, h, rfl⟩ := hs
      exact ⟨h, rfl⟩
    next => simp at hs
  · rintro ⟨h, rfl⟩
    simp [paysToWitness, Command.pushes, h.length_eq]

theorem paysToKeyHash_iff_template : s.paysToKeyHash = true ↔ ∃ h, s.template = .keyHash h := by
  simp only [paysToKeyHash_iff, template_eq_keyHash_iff]

theorem paysToScriptHash_iff_template :
    s.paysToScriptHash = true ↔ ∃ h, s.template = .scriptHash h := by
  simp only [paysToScriptHash_iff, template_eq_scriptHash_iff]

theorem paysToWitnessKeyHash_iff_template :
    s.paysToWitnessKeyHash = true ↔ ∃ h, s.template = .witnessKeyHash h := by
  simp only [paysToWitnessKeyHash, paysToWitness_iff, template_eq_witnessKeyHash_iff,
    payToWitnessKeyHash]

theorem paysToWitnessScriptHash_iff_template :
    s.paysToWitnessScriptHash = true ↔ ∃ h, s.template = .witnessScriptHash h := by
  simp only [paysToWitnessScriptHash, paysToWitness_iff, template_eq_witnessScriptHash_iff,
    payToWitnessScriptHash]

theorem paysToKeyHash_eq (s : Script) :
    s.paysToKeyHash = match s.template with | .keyHash _ => true | _ => false := by
  rw [Bool.eq_iff_iff, paysToKeyHash_iff_template]
  cases s.template <;> simp

theorem paysToScriptHash_eq (s : Script) :
    s.paysToScriptHash = match s.template with | .scriptHash _ => true | _ => false := by
  rw [Bool.eq_iff_iff, paysToScriptHash_iff_template]
  cases s.template <;> simp

theorem paysToWitnessKeyHash_eq (s : Script) :
    s.paysToWitnessKeyHash = match s.template with | .witnessKeyHash _ => true | _ => false := by
  rw [Bool.eq_iff_iff, paysToWitnessKeyHash_iff_template]
  cases s.template <;> simp

theorem paysToWitnessScriptHash_eq (s : Script) :
    s.paysToWitnessScriptHash = match s.template with
      | .witnessScriptHash _ => true
      | _ => false := by
  rw [Bool.eq_iff_iff, paysToWitnessScriptHash_iff_template]
  cases s.template <;> simp

/-- Which of the four forms a script has. -/
def forms (s : Script) : List Bool :=
  [s.paysToKeyHash, s.paysToScriptHash, s.paysToWitnessKeyHash, s.paysToWitnessScriptHash]

theorem count_forms_le (s : Script) : s.forms.count true ≤ 1 := by
  simp only [forms, paysToKeyHash_eq, paysToScriptHash_eq, paysToWitnessKeyHash_eq,
    paysToWitnessScriptHash_eq]
  cases s.template <;> simp

theorem script?_eq_some_iff : t.script? = some s ↔ s.template = t ∧ t ≠ .nonstandard := by
  cases t with
  | nonstandard => simp [Template.script?]
  | keyHash h => simp [Template.script?, template_eq_keyHash_iff, eq_comm]
  | scriptHash h => simp [Template.script?, template_eq_scriptHash_iff, eq_comm]
  | witnessKeyHash h => simp [Template.script?, template_eq_witnessKeyHash_iff, eq_comm]
  | witnessScriptHash h => simp [Template.script?, template_eq_witnessScriptHash_iff, eq_comm]

theorem templateOfForm_of_script? (h : t.script? = some s) : s.templateOfForm = t := by
  cases t with
  | nonstandard => cases h
  | keyHash hash | scriptHash hash | witnessKeyHash hash | witnessScriptHash hash =>
    cases h
    simp [templateOfForm, payToKeyHash, payToScriptHash, payToWitnessKeyHash,
      payToWitnessScriptHash, paysToKeyHash, paysToScriptHash, paysToWitnessKeyHash,
      paysToWitnessScriptHash, paysToWitness, Command.pushes, FixedBytes.ofBytes?, hash.length_eq]

theorem templateOfForm_of_nonstandard (h : s.template = .nonstandard) :
    s.templateOfForm = .nonstandard := by
  unfold templateOfForm
  split <;> simp [paysToKeyHash_eq, paysToScriptHash_eq, paysToWitnessKeyHash_eq,
    paysToWitnessScriptHash_eq, h]

theorem templateOfForm_eq (s : Script) : s.templateOfForm = s.template := by
  by_cases h : s.template = .nonstandard
  · rw [h, templateOfForm_of_nonstandard h]
  · exact templateOfForm_of_script? (script?_eq_some_iff.mpr ⟨rfl, h⟩)

theorem isCanonical_of_script? (h : t.script? = some s) : ∀ c ∈ s, c.IsCanonical := by
  cases t with
  | nonstandard => cases h
  | keyHash hash | scriptHash hash | witnessKeyHash hash | witnessScriptHash hash =>
    cases h
    simp [payToKeyHash, payToScriptHash, payToWitnessKeyHash, payToWitnessScriptHash,
      Command.IsCanonical, hash.length_eq, maxElementSize]
    decide

theorem length_body_of_script? {raw : Bytes} (h : t.script? = some s) (hraw : s.body = .ok raw) :
    raw.length ≤ 34 := by
  cases t with
  | nonstandard => cases h
  | keyHash hash | scriptHash hash | witnessKeyHash hash | witnessScriptHash hash =>
    cases h
    simp [payToKeyHash, payToScriptHash, payToWitnessKeyHash, payToWitnessScriptHash,
      body, Command.encode, hash.length_eq, bind, Except.bind, pure, Except.pure] at hraw
    subst hraw
    simp [hash.length_eq]

/-- A script that pays to a template is written, and what it is written as reads as the same script,
alone and behind its length. -/
theorem reads_back_of_script? (h : t.script? = some s) :
    ∃ raw framed, s.body = .ok raw ∧ ofBody raw = .ok s ∧ s.bytes = .ok framed ∧
      ∀ rest, ofBytes (framed ++ rest) = .ok (s, framed.length) := by
  obtain ⟨raw, hraw, hread⟩ := ofBody_body_of_isCanonical (isCanonical_of_script? h)
  have hlen := length_body_of_script? h hraw
  have hmax : 34 < UInt64.size := by decide
  exact ⟨raw, _, hraw, hread, bytes_eq_ok_of_body hraw,
    ofBytes_lengthPrefixed hread (Nat.lt_of_le_of_lt hlen hmax)⟩

/-- A script has a template just when it is the script that pays to it, with the same hash, and
however the template is found it is the same one. A form is there just when the template is one of
that form, so that a script has at most one. Writing a script that pays to a template and reading it
back gives a script of the same template. -/
theorem classification_exact (s : Script) :
    s.templateOfForm = s.template ∧
    (∀ h, s.template = .keyHash h ↔ s = payToKeyHash h) ∧
    (∀ h, s.template = .scriptHash h ↔ s = payToScriptHash h) ∧
    (∀ h, s.template = .witnessKeyHash h ↔ s = payToWitnessKeyHash h) ∧
    (∀ h, s.template = .witnessScriptHash h ↔ s = payToWitnessScriptHash h) ∧
    (s.paysToKeyHash = true ↔ ∃ h, s.template = .keyHash h) ∧
    (s.paysToScriptHash = true ↔ ∃ h, s.template = .scriptHash h) ∧
    (s.paysToWitnessKeyHash = true ↔ ∃ h, s.template = .witnessKeyHash h) ∧
    (s.paysToWitnessScriptHash = true ↔ ∃ h, s.template = .witnessScriptHash h) ∧
    s.forms.count true ≤ 1 ∧
    ∀ t : Template, t.script? = some s → s.template = t ∧
      ∃ raw framed, s.body = .ok raw ∧ ofBody raw = .ok s ∧ s.bytes = .ok framed ∧
        ∀ rest, ofBytes (framed ++ rest) = .ok (s, framed.length) :=
  ⟨templateOfForm_eq s, fun _ => template_eq_keyHash_iff, fun _ => template_eq_scriptHash_iff,
    fun _ => template_eq_witnessKeyHash_iff, fun _ => template_eq_witnessScriptHash_iff,
    paysToKeyHash_iff_template, paysToScriptHash_iff_template, paysToWitnessKeyHash_iff_template,
    paysToWitnessScriptHash_iff_template, count_forms_le s,
    fun _ h => ⟨(script?_eq_some_iff.mp h).1, reads_back_of_script? h⟩⟩

/-- A program of 32 zero bytes stands for a script and not for a key, also when it was read back. -/
theorem zeroProgram_classified :
    let s := payToWitnessScriptHash (.zero 32)
    s.paysToWitnessScriptHash = true ∧ s.forms.count true ≤ 1 ∧
    (Template.witnessScriptHash (.zero 32)).script? = some s ∧
    ∃ raw, s.body = .ok raw ∧ ofBody raw = .ok s := by
  intro s
  have hs : (Template.witnessScriptHash (.zero 32)).script? = some s := rfl
  obtain ⟨_, _, _, _, _, _, _, _, hform, hcount, hback⟩ := classification_exact s
  obtain ⟨htemplate, raw, _, hraw, hread, _⟩ := hback _ hs
  exact ⟨hform.mpr ⟨_, htemplate⟩, hcount, hs, raw, hraw, hread⟩

end Script

namespace Transaction

/-- The script code of a key hash program is chosen by the template found by its form. -/
theorem keyHashCode_by_form (program : Script) :
    keyHashCode program = match program.templateOfForm with
      | .witnessKeyHash h => (Script.payToKeyHash h).bytes.mapError fun e => .wire (.script e)
      | _ => .error .embeddedScript := by
  rw [Script.templateOfForm_eq, keyHashCode]
  cases ht : program.witnessKeyHash? with
  | some h =>
    have htemplate := Script.template_eq_witnessKeyHash_iff.mpr
      (Script.witnessKeyHash?_eq_some_iff.mp ht)
    rw [htemplate]
  | none =>
    cases htemplate : program.template with
    | witnessKeyHash h =>
      have hsome := Script.witnessKeyHash?_eq_some_iff.mpr
        (Script.template_eq_witnessKeyHash_iff.mp htemplate)
      cases ht.symm.trans hsome
    | _ => rfl

/-- The digest of an input is chosen by asking for one form after the other. -/
theorem selectDigest_by_form (tx : Transaction) (fetch : Fetcher) (index : Nat) (i : Input)
    (locking : Script) : tx.selectDigest fetch index i locking =
      if locking.paysToScriptHash then do
        let redeem ← ofExcept i.redeemScript
        if redeem.paysToWitnessKeyHash then
          InputDigest.segwit <$> tx.witnessDigest fetch index (some redeem) none
        else if redeem.paysToWitnessScriptHash then do
          let script ← ofExcept i.witnessScript
          InputDigest.segwit <$> tx.witnessDigest fetch index none (some script)
        else InputDigest.legacy <$> ofExcept (tx.legacyDigest fetch index (some redeem))
      else if locking.paysToWitnessKeyHash then
        InputDigest.segwit <$> tx.witnessDigest fetch index none none
      else if locking.paysToWitnessScriptHash then do
        let script ← ofExcept i.witnessScript
        InputDigest.segwit <$> tx.witnessDigest fetch index none (some script)
      else InputDigest.legacy <$> ofExcept (tx.legacyDigest fetch index none) := by
  unfold selectDigest
  simp only [Script.paysToScriptHash_eq, Script.paysToWitnessKeyHash_eq,
    Script.paysToWitnessScriptHash_eq]
  cases locking.template with
  | scriptHash h =>
    refine bind_congr fun redeem => ?_
    cases redeem.template <;> rfl
  | _ => rfl

end Transaction

end BitcoinSpend

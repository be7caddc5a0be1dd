import BitcoinSpend.Proofs.Transaction.RoundTrip
import BitcoinSpend.Proofs.Spend.Verdict
import BitcoinSpend.Tool.Respond

namespace BitcoinSpend

namespace DigestM

variable {tx : Transaction} {α β : Type}

/-- What a computation answers when no hash is kept. -/
def answer (m : DigestM α) : Except TxError α :=
  match m {} with
  | .ok a _ => .ok a
  | .error e _ => .error e

theorem Answers.answer_eq {m : DigestM α} {r : Except TxError α} (h : Answers tx m r) :
    m.answer = r :=
  Yields.answerFrom_eq h (DigestMemo.upToDate_empty tx)

theorem Transparent.answers {m : DigestM α} (h : Transparent tx m) : Answers tx m m.answer := by
  obtain ⟨r, hr⟩ := h
  have hanswers : Answers tx m r := hr
  rwa [hanswers.answer_eq]

end DigestM

theorem Task.answer_eq_ok_iff {α : Type} {m : DigestM α} {a : α} :
    Task.answer m = .ok a ↔ m.answer = .ok a := by
  unfold Task.answer DigestM.answer
  cases m {} <;> simp

namespace Transaction

open DigestM

variable {tx : Transaction} {scheme : SignatureScheme} {fetch : Fetcher} {index : Nat} {b : Bool}

/-- Whether an input verifies, unless it cannot be judged. -/
def verdict (tx : Transaction) (scheme : SignatureScheme) (fetch : Fetcher) (index : Nat) :
    Except TxError Bool :=
  (tx.verifyInput scheme fetch index).answer

theorem verdict_eq : tx.verdict scheme fetch index = (do
    let i ← tx.input index
    let locking ← i.locking fetch tx.testnet
    let d ← (tx.selectDigest fetch index i locking).answer
    ((tx.context scheme i d).evaluate (i.script ++ locking)).mapError .eval) := by
  have hi : Answers tx (tx.verifyInput scheme fetch index) _ :=
    .bind (.ofExcept _) fun i => .bind (.ofExcept _) fun locking =>
      .bind (transparent_selectDigest index i locking).answers fun _ => .ofExcept _
  exact hi.answer_eq

theorem exists_locking_of_verdict {i : Input} (hi : tx.input index = .ok i)
    (h : tx.verdict scheme fetch index = .ok b) :
    ∃ locking, i.locking fetch tx.testnet = .ok locking := by
  simp only [verdict_eq, hi, Except.bind_eq_ok_iff, Except.ok.injEq] at h
  obtain ⟨_, rfl, locking, hlocking, _⟩ := h
  exact ⟨locking, hlocking⟩

theorem answer_verifyInputs_cons (rest : List Nat) :
    (tx.verifyInputs scheme fetch (index :: rest)).answer =
      tx.verdict scheme fetch index >>= fun valid =>
        if valid then (tx.verifyInputs scheme fetch rest).answer else .ok false :=
  answerFrom_verifyInputs_cons index rest

/-- Inputs that can all be judged verify together just if each of them does. -/
theorem answer_verifyInputs {indices : List Nat} {valid : List Bool}
    (h : List.Forall₂ (fun index b => tx.verdict scheme fetch index = .ok b) indices valid) :
    (tx.verifyInputs scheme fetch indices).answer = .ok (valid.all fun b => b) := by
  induction h with
  | nil => rfl
  | @cons index b indices valid hb _ ih =>
    rw [answer_verifyInputs_cons, hb]
    cases b with
    | true => exact ih
    | false => rfl

theorem verdict_of_answer_verifyInputs {indices : List Nat}
    (h : (tx.verifyInputs scheme fetch indices).answer = .ok true) :
    ∀ index ∈ indices, tx.verdict scheme fetch index = .ok true := by
  induction indices with
  | nil => simp
  | cons index rest ih =>
    rw [answer_verifyInputs_cons, Except.bind_eq_ok_iff] at h
    obtain ⟨b, hb, hrest⟩ := h
    cases b with
    | true => exact List.forall_mem_cons.mpr ⟨hb, ih hrest⟩
    | false => simp at hrest

theorem answer_verify : (tx.verify scheme fetch).answer =
    match tx.fee fetch with
    | .error .amountOverflow => .ok false
    | .error e => .error e
    | .ok fee =>
      if fee < 0 then .ok false
      else (tx.verifyInputs scheme fetch (List.range tx.inputs.length)).answer :=
  answerFrom_verify

/-- Where verifying answers, the fee can be missing only because the amounts overflow. -/
theorem exists_fee_iff_of_verify (h : (tx.verify scheme fetch).answer = .ok b) :
    (∃ fee, tx.fee fetch = .ok fee) ↔ tx.fee fetch ≠ .error .amountOverflow := by
  rw [answer_verify] at h
  cases hfee : tx.fee fetch with
  | ok fee => simp
  | error e =>
    rw [hfee] at h
    cases e with
    | amountOverflow => simp
    | _ => simp at h

theorem verified_of_answer_verify (h : (tx.verify scheme fetch).answer = .ok true) :
    (∃ fee, tx.fee fetch = .ok fee) ∧
      ∀ index < tx.inputs.length, tx.verdict scheme fetch index = .ok true := by
  rw [answer_verify] at h
  split at h
  next => simp at h
  next => simp at h
  next fee hfee =>
    split at h
    next => simp at h
    next =>
      exact ⟨⟨fee, hfee⟩, fun index hindex =>
        verdict_of_answer_verifyInputs h index (List.mem_range.mpr hindex)⟩

end Transaction

namespace VerifyReport

open DigestM Transaction

variable {tx : Transaction} {scheme : SignatureScheme} {fetch : Fetcher} {testnet : Bool}

theorem transparent_ofInput (index : Nat) (i : Input) :
    Transparent tx (ofInput tx scheme fetch testnet index i) :=
  .bind (.ofExcept _) fun _ => .bind (transparent_verifyInput index) fun _ => .pure _

theorem answer_ofInput_eq_ok_iff {index : Nat} {i : Input} {r : InputReport} :
    (ofInput tx scheme fetch testnet index i).answer = .ok r ↔
      ∃ locking, i.locking fetch testnet = .ok locking ∧
        ∃ valid, tx.verdict scheme fetch index = .ok valid ∧
          { index, outPoint := i.outPoint, locking := locking.template, valid } = r := by
  have h : Answers tx (ofInput tx scheme fetch testnet index i) _ :=
    .bind (.ofExcept _) fun _ => .bind (transparent_verifyInput index).answers fun _ =>
      .ofExcept (.ok _)
  rw [h.answer_eq]
  simp only [Except.bind_eq_ok_iff, Except.ok.injEq, verdict]

theorem transparent_ofInputs (inputs : List (Input × Nat)) :
    Transparent tx (ofInputs tx scheme fetch testnet inputs) := by
  induction inputs with
  | nil => exact .pure []
  | cons x inputs ih => exact .bind (transparent_ofInput _ _) fun _ => .bind ih fun _ => .pure _

theorem answer_ofInputs_eq_ok_iff {inputs : List (Input × Nat)} {rs : List InputReport} :
    (ofInputs tx scheme fetch testnet inputs).answer = .ok rs ↔ List.Forall₂ (fun x r =>
      (ofInput tx scheme fetch testnet x.2 x.1).answer = .ok r) inputs rs := by
  induction inputs generalizing rs with
  | nil => simp [ofInputs, answer, pure, EStateM.pure, eq_comm]
  | cons x inputs ih =>
    have h : Answers tx (ofInputs tx scheme fetch testnet (x :: inputs)) _ :=
      .bind (transparent_ofInput x.2 x.1).answers fun _ =>
        .bind (transparent_ofInputs inputs).answers fun _ => .ofExcept (.ok _)
    rw [h.answer_eq, List.forall₂_cons_left_iff]
    simp only [Except.bind_eq_ok_iff, Except.ok.injEq, ih, ← exists_and_left, @eq_comm _ _ rs]

theorem answer_ofTransaction_eq_ok_iff {report : VerifyReport} :
    (ofTransaction tx scheme fetch testnet).answer = .ok report ↔
      ∃ fee, tx.fee fetch = .ok fee ∧
        ∃ rs, (ofInputs tx scheme fetch testnet tx.inputs.zipIdx).answer = .ok rs ∧
          ∃ id, tx.id = .ok id ∧ ⟨id, fee, rs, 0 ≤ fee && rs.all (·.valid)⟩ = report := by
  have h : Answers tx (ofTransaction tx scheme fetch testnet) _ :=
    .bind (.ofExcept _) fun _ => .bind (transparent_ofInputs _).answers fun _ =>
      .bind (.ofExcept _) fun _ => .ofExcept (.ok _)
  rw [h.answer_eq]
  simp only [Except.bind_eq_ok_iff, mapError_eq_ok_iff, Except.ok.injEq]

/-- The verdicts of a report are those of all inputs, in order. -/
theorem verdicts_of_ofInputs {rs : List InputReport}
    (h : (ofInputs tx scheme fetch testnet tx.inputs.zipIdx).answer = .ok rs) :
    List.Forall₂ (fun index b => tx.verdict scheme fetch index = .ok b)
      (List.range tx.inputs.length) (rs.map InputReport.valid) := by
  have hindices : tx.inputs.zipIdx.map Prod.snd = List.range tx.inputs.length := by
    rw [List.zipIdx_map_snd, List.range_eq_range']
  rw [← hindices, List.forall₂_map_left_iff, List.forall₂_map_right_iff]
  refine (answer_ofInputs_eq_ok_iff.mp h).imp fun x r hr => ?_
  obtain ⟨_, _, valid, hvalid, rfl⟩ := answer_ofInput_eq_ok_iff.mp hr
  exact hvalid

theorem exists_ofInputs
    (h : ∀ index < tx.inputs.length, ∃ b, tx.verdict scheme fetch index = .ok b) :
    ∃ rs, (ofInputs tx scheme fetch tx.testnet tx.inputs.zipIdx).answer = .ok rs := by
  have hall : ∀ x ∈ tx.inputs.zipIdx, ∃ r,
      (ofInput tx scheme fetch tx.testnet x.2 x.1).answer = .ok r ∧ True := by
    intro x hx
    have hget := List.mem_zipIdx_iff_getElem?.mp hx
    obtain ⟨b, hb⟩ := h x.2 (List.getElem?_eq_some_iff.mp hget).choose
    have hi : tx.input x.2 = .ok x.1 := by simp [input, hget]
    obtain ⟨locking, hlocking⟩ := exists_locking_of_verdict hi hb
    exact ⟨_, answer_ofInput_eq_ok_iff.mpr ⟨locking, hlocking, b, hb, rfl⟩, trivial⟩
  obtain ⟨rs, hrs, _⟩ := exists_forall₂_iff.mpr hall
  exact ⟨rs, answer_ofInputs_eq_ok_iff.mpr hrs⟩

/-- A report is there just if the fee and the verdicts of all inputs are. -/
theorem exists_report_iff {id : TxId} (hid : tx.id = .ok id) :
    (∃ report, (ofTransaction tx scheme fetch tx.testnet).answer = .ok report) ↔
      (∃ fee, tx.fee fetch = .ok fee) ∧
        ∀ index < tx.inputs.length, ∃ b, tx.verdict scheme fetch index = .ok b := by
  constructor
  · intro h
    obtain ⟨report, h⟩ := h
    obtain ⟨fee, hfee, rs, hrs, _⟩ := answer_ofTransaction_eq_ok_iff.mp h
    refine ⟨⟨fee, hfee⟩, fun index hindex => ?_⟩
    obtain ⟨b, hb, _⟩ := exists_forall₂_iff.mp ⟨_, verdicts_of_ofInputs hrs, fun _ _ => trivial⟩
      index (List.mem_range.mpr hindex)
    exact ⟨b, hb⟩
  · intro h
    obtain ⟨⟨fee, hfee⟩, hall⟩ := h
    obtain ⟨rs, hrs⟩ := exists_ofInputs hall
    exact ⟨_, answer_ofTransaction_eq_ok_iff.mpr ⟨fee, hfee, rs, hrs, id, hid, rfl⟩⟩

/-- Where there is a report, verifying has its verdict. -/
theorem answer_verify_of_report {report : VerifyReport}
    (h : (ofTransaction tx scheme fetch testnet).answer = .ok report) :
    (tx.verify scheme fetch).answer = .ok report.valid := by
  obtain ⟨fee, hfee, rs, hrs, _, _, rfl⟩ := answer_ofTransaction_eq_ok_iff.mp h
  simp only [answer_verify, hfee]
  by_cases hneg : fee < 0
  · simp [hneg, Int.not_le.mpr hneg]
  · have hpos : 0 ≤ fee := Int.not_lt.mp hneg
    rw [if_neg hneg, answer_verifyInputs (verdicts_of_ofInputs hrs)]
    simp [hpos, List.all_map, Function.comp_def]

theorem valid_eq_of_json {report report' : VerifyReport} (h : report.json = report'.json) :
    report.valid = report'.valid := by
  simp only [json, Json.object.injEq, List.cons.injEq, Prod.mk.injEq, Json.truth.injEq] at h
  exact h.2.2.2.1.2

end VerifyReport

theorem withoutMark_encode (data : Bytes) : withoutMark (Hex.encode data) = Hex.encode data := by
  have hunmarked := Hex.forall_mem_encode (P := (· ≠ 'x')) (by decide) data
  unfold withoutMark
  split
  next _ rest htext =>
    rw [htext] at hunmarked
    exact absurd rfl (hunmarked 'x' (by simp))
  next => rfl

namespace Task

variable {text : String} {testnet : Bool} {cache : TxCache} {tx : Transaction}

theorem exists_ofBytes_of_readTransaction (h : readTransaction text testnet = .ok tx) :
    ∃ data, Transaction.ofBytes data testnet = .ok tx := by
  rw [readTransaction, mapError_eq_ok_iff] at h
  exact Transaction.exists_ofBytes_of_ofText h

theorem readTransaction_encode {data : Bytes} (h : Transaction.ofBytes data testnet = .ok tx) :
    readTransaction (Hex.encode data) testnet = .ok tx := by
  rw [readTransaction, withoutMark_encode, Transaction.ofText_encode, h]
  rfl

theorem report_verify_eq_ok_iff (hread : readTransaction text testnet = .ok tx) {json : Json} :
    (verify text).report testnet cache = .ok json ↔ ∃ report : VerifyReport,
      answer (VerifyReport.ofTransaction tx Secp256k1.scheme cache.fetch testnet) = .ok report ∧
        report.json = json := by
  simp only [report, hread, Except.bind_eq_ok_iff, Except.pure_eq_ok_iff, Except.ok.injEq,
    exists_eq_left']

/-- Where the task of verifying answers a report, verifying itself answers with its verdict. Where
verifying answers, the task answers a report with that verdict just if the amounts do not overflow
and every input can be judged, as is so of whatever verifies. -/
theorem verify_reports_verdict (hread : readTransaction text testnet = .ok tx) :
    (∀ report : VerifyReport, (verify text).report testnet cache = .ok report.json →
      answer (tx.verify Secp256k1.scheme cache.fetch) = .ok report.valid) ∧
    ∀ b, answer (tx.verify Secp256k1.scheme cache.fetch) = .ok b →
      ((∃ report : VerifyReport, (verify text).report testnet cache = .ok report.json ∧
          report.valid = b) ↔
        tx.fee cache.fetch ≠ .error .amountOverflow ∧ ∀ index < tx.inputs.length,
          ∃ valid, answer (tx.verifyInput Secp256k1.scheme cache.fetch index) = .ok valid) ∧
      (b = true → ∃ report : VerifyReport,
        (verify text).report testnet cache = .ok report.json ∧ report.valid = true) := by
  obtain ⟨data, hdata⟩ := exists_ofBytes_of_readTransaction hread
  obtain ⟨id, hid⟩ := Transaction.exists_id_of_ofBytes hdata
  obtain ⟨rfl, _⟩ := Transaction.ofBytes_eq_ok_iff.mp hdata
  have hreport : ∀ report : VerifyReport, (verify text).report tx.testnet cache = .ok report.json →
      answer (tx.verify Secp256k1.scheme cache.fetch) = .ok report.valid := by
    intro report h
    obtain ⟨report', hreport, hjson⟩ := (report_verify_eq_ok_iff hread).mp h
    rw [← VerifyReport.valid_eq_of_json hjson]
    exact answer_eq_ok_iff.mpr (VerifyReport.answer_verify_of_report (answer_eq_ok_iff.mp hreport))
  have hiff : ∀ b, answer (tx.verify Secp256k1.scheme cache.fetch) = .ok b →
      ((∃ report : VerifyReport, (verify text).report tx.testnet cache = .ok report.json ∧
          report.valid = b) ↔
        (∃ fee, tx.fee cache.fetch = .ok fee) ∧ ∀ index < tx.inputs.length,
          ∃ valid, tx.verdict Secp256k1.scheme cache.fetch index = .ok valid) := by
    intro b hb
    rw [← VerifyReport.exists_report_iff hid]
    constructor
    · intro h
      obtain ⟨report, h, _⟩ := h
      obtain ⟨report', hreport', _⟩ := (report_verify_eq_ok_iff hread).mp h
      exact ⟨report', answer_eq_ok_iff.mp hreport'⟩
    · intro h
      obtain ⟨report, h⟩ := h
      have hjson := (report_verify_eq_ok_iff hread).mpr ⟨report, answer_eq_ok_iff.mpr h, rfl⟩
      exact ⟨report, hjson, Except.ok.inj ((hreport report hjson).symm.trans hb)⟩
  refine ⟨hreport, fun b hb => ⟨?_, fun htrue => ?_⟩⟩
  · simp only [hiff b hb, answer_eq_ok_iff, Transaction.verdict,
      Transaction.exists_fee_iff_of_verify (answer_eq_ok_iff.mp hb)]
  · subst htrue
    obtain ⟨hfee, hall⟩ := Transaction.verified_of_answer_verify (answer_eq_ok_iff.mp hb)
    exact (hiff true hb).mpr ⟨hfee, fun index hindex => ⟨true, hall index hindex⟩⟩

/-- Outputs of which the first cannot be spent, the second is not judged without a redeem script,
and the third holds as much as an amount can. -/
def mixedOutputs : Transaction :=
  .make 1 [⟨⟨.zero, 0xffffffff⟩, [], 0xffffffff, []⟩] [⟨1, [.op .zero]⟩,
    ⟨0, Script.payToScriptHash (.zero 20)⟩, ⟨9223372036854775807, [.op .pushOne]⟩] 0 false

def mixedId : TxId :=
  mixedOutputs.id.toOption.getD .zero

/-- The cache that holds just these outputs. -/
def mixedCache : TxCache :=
  ⟨[(mixedId, mixedOutputs)]⟩

/-- Spends some of these outputs without any script, and creates others. -/
def spendingMixed (indices : List UInt32) (amounts : List Int64) : Transaction :=
  .make 1 (indices.map fun index => ⟨⟨mixedId, index⟩, [], 0xffffffff, []⟩)
    (amounts.map fun amount => ⟨amount, []⟩) 0 false

/-- The bytes of a transaction, as digits. -/
def digitsOf (tx : Transaction) : String :=
  Hex.encode (tx.bytes.toOption.getD [])

/-- A spend that verifies and one that does not, both with a report. -/
theorem verify_reports_mixed :
    (readTransaction (digitsOf (spendingMixed [2] [1])) false = .ok (spendingMixed [2] [1]) ∧
      ∃ report : VerifyReport, (verify (digitsOf (spendingMixed [2] [1]))).report false mixedCache =
        .ok report.json ∧ report.valid = true) ∧
    readTransaction (digitsOf (spendingMixed [0] [])) false = .ok (spendingMixed [0] []) ∧
      ∃ report : VerifyReport, (verify (digitsOf (spendingMixed [0] []))).report false mixedCache =
        .ok report.json ∧ report.valid = false := by
  have hread : readTransaction (digitsOf (spendingMixed [2] [1])) false =
      .ok (spendingMixed [2] [1]) := readTransaction_encode (by decide +kernel)
  have hread' : readTransaction (digitsOf (spendingMixed [0] [])) false =
      .ok (spendingMixed [0] []) := readTransaction_encode (by decide +kernel)
  have htrue : answer ((spendingMixed [2] [1]).verify Secp256k1.scheme mixedCache.fetch) =
      .ok true := by decide +kernel
  have hfalse : answer ((spendingMixed [0] []).verify Secp256k1.scheme mixedCache.fetch) =
      .ok false := by decide +kernel
  have hjudged : (spendingMixed [0] []).fee mixedCache.fetch ≠ .error .amountOverflow ∧
      ∀ index < 1, answer ((spendingMixed [0] []).verifyInput Secp256k1.scheme mixedCache.fetch
        index) = .ok false := by decide +kernel
  refine ⟨⟨hread, ((verify_reports_verdict hread).2 true htrue).2 rfl⟩, hread', ?_⟩
  exact ((verify_reports_verdict hread').2 false hfalse).1.mpr
    ⟨hjudged.1, fun index hindex => ⟨false, hjudged.2 index hindex⟩⟩

/-- Three spends that do not verify, and that no report tells of: one pays too much, one has a false
input in front of one that is not judged, and in one the amounts overflow. -/
theorem verdict_unreported : TxCache.empty.insert mixedOutputs = .ok (mixedId, mixedCache) ∧
    ∀ tx ∈ [spendingMixed [1] [1], spendingMixed [0, 1] [], spendingMixed [0, 2] []],
      readTransaction (digitsOf tx) false = .ok tx ∧
        answer (tx.verify Secp256k1.scheme mixedCache.fetch) = .ok false ∧
        ∀ json, (verify (digitsOf tx)).report false mixedCache ≠ .ok json := by
  refine ⟨by decide +kernel, fun tx htx => ?_⟩
  have hfacts : ∀ tx ∈ [spendingMixed [1] [1], spendingMixed [0, 1] [], spendingMixed [0, 2] []],
      Transaction.ofBytes (tx.bytes.toOption.getD []) false = .ok tx ∧
        answer (tx.verify Secp256k1.scheme mixedCache.fetch) = .ok false ∧
        (answer (VerifyReport.ofTransaction tx Secp256k1.scheme mixedCache.fetch false)).isOk =
          false := by decide +kernel
  obtain ⟨hdata, hfalse, hfails⟩ := hfacts tx htx
  have hread : readTransaction (digitsOf tx) false = .ok tx := readTransaction_encode hdata
  refine ⟨hread, hfalse, fun json hjson => ?_⟩
  obtain ⟨report, hreport, _⟩ := (report_verify_eq_ok_iff hread).mp hjson
  rw [hreport] at hfails
  exact Bool.noConfusion hfails

end Task

end BitcoinSpend

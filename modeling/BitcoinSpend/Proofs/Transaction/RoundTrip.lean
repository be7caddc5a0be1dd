import BitcoinSpend.Proofs.Script.RoundTrip
import BitcoinSpend.Proofs.Transaction.Canonical
import Mathlib.Algebra.Order.BigOperators.Group.List

namespace BitcoinSpend

section

variable {α : Type} {xs : List α}

/-- Items that are written with their bodies take no fewer bytes than there are items, and more than
any of the bodies. -/
theorem length_zipWith_flatten {f : α → Bytes → Bytes} (hf : ∀ x bs, bs.length < (f x bs).length)
    {bodies : List Bytes} (hlen : xs.length = bodies.length) :
    xs.length ≤ (List.zipWith f xs bodies).flatten.length ∧
      ∀ bs ∈ bodies, bs.length < (List.zipWith f xs bodies).flatten.length := by
  induction xs generalizing bodies with
  | nil =>
    obtain rfl := List.length_eq_zero_iff.mp hlen.symm
    simp
  | cons x xs ih =>
    cases bodies with
    | nil => simp at hlen
    | cons body bodies =>
      obtain ⟨hcount, hbodies⟩ := ih (Nat.succ.inj hlen)
      have hfirst := hf x body
      simp only [List.zipWith_cons_cons, List.flatten_cons, List.length_append, List.length_cons,
        List.forall_mem_cons]
      refine ⟨by omega, by omega, fun bs hbs => ?_⟩
      have hrest := hbodies bs hbs
      omega

theorem length_le_flatMap {f : α → Bytes} {x : α} (hx : x ∈ xs) :
    (f x).length ≤ (xs.flatMap f).length :=
  (List.sublist_flatten_of_mem (List.mem_map_of_mem hx)).length_le

theorem count_le_length_flatMap {f : α → Bytes} (hf : ∀ x, f x ≠ []) :
    xs.length ≤ (xs.flatMap f).length := by
  induction xs with
  | nil => simp
  | cons x xs ih =>
    have hpos := List.length_pos_iff.mpr (hf x)
    simp only [List.flatMap_cons, List.length_append, List.length_cons]
    omega

end

theorem Varint.length_lt_lengthPrefixed (bs : Bytes) :
    bs.length < (Varint.lengthPrefixed bs).length := by
  have hpos := List.length_pos_iff.mpr (Varint.encode_ne_nil bs.length)
  simp only [lengthPrefixed, List.length_append]
  omega

theorem Input.WitnessFits.of_length_lt {i : Input} (h : i.witnessBytes.length < UInt64.size) :
    i.WitnessFits := by
  simp only [Input.witnessBytes, List.length_append] at h
  refine ⟨?_, fun item hitem => ?_⟩
  · have hcount : i.witness.length ≤ (i.witness.flatMap Varint.lengthPrefixed).length :=
      count_le_length_flatMap fun item => by simp [Varint.lengthPrefixed, Varint.encode_ne_nil]
    omega
  · have hitems : (Varint.lengthPrefixed item).length ≤
        (i.witness.flatMap Varint.lengthPrefixed).length := length_le_flatMap hitem
    have hlen := Varint.length_lt_lengthPrefixed item
    omega

namespace Transaction

variable {tx : Transaction} {ins outs : List WireScript}

/-- The scripts that a transaction is written with. -/
def scripts (tx : Transaction) : List Script :=
  tx.inputs.map Input.script ++ tx.outputs.map Output.script

theorem exists_shortest_iff : (∀ s ∈ tx.scripts, ∀ c ∈ s, c.IsCanonical) ↔
    ∃ ins outs, List.Forall₂ (fun i ws => WireScript.script ws = i.script) tx.inputs ins ∧
      List.Forall₂ (fun o ws => WireScript.script ws = o.script) tx.outputs outs ∧
      ∀ ws ∈ ins ++ outs, ws.IsShortest := by
  simp only [scripts, List.forall_mem_append, List.forall_mem_map,
    ← WireScript.exists_shortest_iff]
  rw [← exists_forall₂_iff, ← exists_forall₂_iff]
  constructor
  · intro h
    obtain ⟨⟨ins, hins, hins'⟩, outs, houts, houts'⟩ := h
    exact ⟨ins, outs, hins, houts, hins', houts'⟩
  · intro h
    obtain ⟨ins, outs, hins, houts, hins', houts'⟩ := h
    exact ⟨⟨ins, hins, hins'⟩, outs, houts, houts'⟩

theorem length_lt_inputLayout (i : Input) (bs : Bytes) : bs.length < (i.layout bs).length := by
  have hbody := Varint.length_lt_lengthPrefixed bs
  simp only [Input.layout, List.length_append]
  omega

theorem length_lt_outputLayout (o : Output) (bs : Bytes) : bs.length < (o.layout bs).length := by
  have hbody := Varint.length_lt_lengthPrefixed bs
  simp only [Output.layout, List.length_append]
  omega

theorem WitnessesFit.of_length_lt {segwit : Bool} {inputs : List Input}
    (hwitness : segwit = true ∨ ∀ i ∈ inputs, i.witness = [])
    (h : (witnessLayout segwit inputs).length < UInt64.size) : WitnessesFit segwit inputs := by
  cases segwit with
  | false => exact hwitness.resolve_left Bool.false_ne_true
  | true =>
    intro i hi
    have hle : i.witnessBytes.length ≤ (inputs.flatMap Input.witnessBytes).length :=
      length_le_flatMap hi
    exact .of_length_lt (Nat.lt_of_le_of_lt hle h)

theorem forall₂_written {α : Type} {script : α → Script} {xs : List α} {wss : List WireScript}
    (h : List.Forall₂ (fun x ws => WireScript.script ws = script x) xs wss)
    (hlen : ∀ ws ∈ wss, ws.body.length < UInt64.size) :
    List.Forall₂ (fun x ws => (script x).Written ws) xs wss :=
  ((List.forall₂_and_left _ _).mpr ⟨hlen, h.flip⟩).flip.imp fun _ _ hws => ⟨hws.2, hws.1⟩

/-- Bytes that are not too many have none of their counts and lengths cut off. -/
theorem readable_and_written_of_length_lt
    (hins : List.Forall₂ (fun i ws => WireScript.script ws = i.script) tx.inputs ins)
    (houts : List.Forall₂ (fun o ws => WireScript.script ws = o.script) tx.outputs outs)
    (hinputs : tx.segwit = true ∨ tx.inputs ≠ [])
    (hwitness : tx.segwit = true ∨ ∀ i ∈ tx.inputs, i.witness = [])
    (hlen : (tx.layout (ins.map WireScript.body) (outs.map WireScript.body)).length <
      UInt64.size) : tx.Readable ∧ tx.Written ins outs := by
  obtain ⟨hinCount, hinBodies⟩ := length_zipWith_flatten length_lt_inputLayout
    (hins.length_eq.trans (List.length_map WireScript.body).symm)
  obtain ⟨houtCount, houtBodies⟩ := length_zipWith_flatten length_lt_outputLayout
    (houts.length_eq.trans (List.length_map WireScript.body).symm)
  simp only [layout, inputsAndOutputsLayout, List.length_append] at hlen
  refine ⟨⟨by omega, by omega, .of_length_lt hwitness (by omega), ?_⟩, ⟨?_, ?_⟩⟩
  · intro hlegacy
    exact hinputs.resolve_left (by simp [hlegacy])
  · refine forall₂_written hins fun ws hws => ?_
    have hbody := hinBodies ws.body (List.mem_map_of_mem hws)
    omega
  · refine forall₂_written houts fun ws hws => ?_
    have hbody := houtBodies ws.body (List.mem_map_of_mem hws)
    omega

/-- A transaction is read back from what it is written as just if reading gives each of its commands
and its witnesses are in its layout. -/
theorem ofBytes_bytes_iff {b : Bytes} (hb : tx.bytes = .ok b) (hlen : b.length < UInt64.size) :
    ofBytes b tx.testnet = .ok tx ↔ (tx.segwit = true ∨ tx.inputs ≠ []) ∧
      (tx.segwit = true ∨ ∀ i ∈ tx.inputs, i.witness = []) ∧
        ∀ s ∈ tx.scripts, ∀ c ∈ s, c.IsCanonical := by
  rw [exists_shortest_iff]
  constructor
  · intro h
    obtain ⟨_, hreadable, ins, outs, hwritten, rfl⟩ := ofBytes_eq_ok_iff.mp h
    have hshortest := Except.ok.inj (hwritten.bytes_eq.symm.trans hb)
    refine ⟨?_, ?_, ins, outs, hwritten.inputs.imp fun _ _ h => h.script_eq,
      hwritten.outputs.imp fun _ _ h => h.script_eq, hwritten.layout_shortest_eq_iff.mp hshortest⟩
    · cases hsegwit : tx.segwit with
      | true => exact Or.inl rfl
      | false => exact Or.inr (hreadable.inputs_ne hsegwit)
    · have hfit := hreadable.witnesses
      cases hsegwit : tx.segwit with
      | true => exact Or.inl rfl
      | false =>
        rw [hsegwit] at hfit
        exact Or.inr hfit
  · intro h
    obtain ⟨hinputs, hwitness, ins, outs, hins, houts, hshortest⟩ := h
    have hbodies := congrArg₂ tx.layout
      (map_shortest_eq_iff.mpr fun ws hws => hshortest ws (List.mem_append_left outs hws))
      (map_shortest_eq_iff.mpr fun ws hws => hshortest ws (List.mem_append_right ins hws))
    obtain rfl := Except.ok.inj ((bytes_eq_layout hins houts).symm.trans hb)
    rw [hbodies] at hlen ⊢
    obtain ⟨hreadable, hwritten⟩ :=
      readable_and_written_of_length_lt hins houts hinputs hwitness hlen
    exact ofBytes_eq_ok_iff.mpr ⟨rfl, hreadable, ins, outs, hwritten, rfl⟩

/-- A transaction with inputs or in the layout with witnesses, with no witness outside that layout
and with canonical commands, is written, and what is written reads as the transaction again. Bytes
that a machine holds are fewer than `2 ^ 64`, as their counts and lengths are words. -/
theorem written_and_read_back (tx : Transaction) (hinputs : tx.segwit = true ∨ tx.inputs ≠ [])
    (hwitness : tx.segwit = true ∨ ∀ i ∈ tx.inputs, i.witness = [])
    (hscripts : ∀ s ∈ tx.scripts, ∀ c ∈ s, c.IsCanonical) :
    ∃ b, tx.bytes = .ok b ∧
      (b.length < UInt64.size → ofBytes b tx.testnet = .ok tx) := by
  obtain ⟨ins, outs, hins, houts, _⟩ := exists_shortest_iff.mp hscripts
  have hb := bytes_eq_layout hins houts
  exact ⟨_, hb, fun hlen => (ofBytes_bytes_iff hb hlen).mpr ⟨hinputs, hwitness, hscripts⟩⟩

/-- Two inputs, only one of which has a witness, and one output with a negative amount. -/
def twoInputs : Transaction :=
  make 2 [⟨⟨⟨FixedBytes.zero 32⟩, 0⟩, [.data (List.replicate 76 0xaa), .op .zero], 7, []⟩,
      ⟨⟨⟨FixedBytes.zero 32⟩, 1⟩, [], 0xffffffff, [[], [1, 2, 3]]⟩] [⟨-1, [.op .pushOne]⟩] 5 true

theorem twoInputs_read_back : twoInputs.segwit = true ∧
    (∀ s ∈ twoInputs.scripts, ∀ c ∈ s, c.IsCanonical) ∧
      ∃ b, twoInputs.bytes = .ok b ∧ ofBytes b true = .ok twoInputs := by
  have hscripts : ∀ s ∈ twoInputs.scripts, ∀ c ∈ s, c.IsCanonical := by decide
  obtain ⟨b, hb, hread⟩ := written_and_read_back twoInputs (.inl rfl) (.inl rfl) hscripts
  have hlen : twoInputs.bytes.map List.length = .ok 190 := by decide +kernel
  rw [hb] at hlen
  have hlen : b.length = 190 := Except.ok.inj hlen
  refine ⟨rfl, hscripts, b, hb, hread ?_⟩
  rw [hlen]
  decide

end Transaction

end BitcoinSpend

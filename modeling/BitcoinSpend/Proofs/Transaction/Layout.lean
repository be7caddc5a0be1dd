import BitcoinSpend.Proofs.Script.Wire
import BitcoinSpend.Transaction.Codec
import Mathlib.Data.List.Forall2

namespace BitcoinSpend

section

variable {α : Type} {Text : Bytes → α → Prop}

theorem Parser.Reads.liftCodec {p : Parser CodecError α} (hp : p.Reads Text) :
    (liftM p : Parser WireError α).Reads Text :=
  hp.mapError WireError.codec

theorem Parser.Reads.liftWire {p : Parser ScriptError α} (hp : p.Reads Text) :
    (liftM p : Parser WireError α).Reads Text :=
  hp.mapError WireError.script

theorem Parser.Reads.counted {p : Parser WireError α} (hp : p.Reads Text) :
    p.counted.Reads fun bs xs => xs.length < UInt64.size ∧
      ∃ cs, bs = Varint.encode xs.length ++ cs ∧ Each Text cs xs := by
  refine (Varint.reads_read.liftCodec.bind fun _ n _ => hp.replicate n).congr fun bs xs => ?_
  constructor
  · intro h
    obtain ⟨_, n, cs, rfl, ⟨hlt, rfl⟩, rfl, hxs⟩ := h
    exact ⟨hlt, cs, rfl, hxs⟩
  · intro h
    obtain ⟨hlt, cs, rfl, hxs⟩ := h
    exact ⟨_, _, cs, rfl, ⟨hlt, rfl⟩, rfl, hxs⟩

end

theorem OutPoint.reads_read : OutPoint.read.Reads fun bs o => bs = o.bytes := by
  refine ((Reader.reads_fixed 32).bind fun _ tx _ =>
    Reader.reads_uint32.map).congr fun bs o => ?_
  constructor
  · intro h
    obtain ⟨_, tx, _, rfl, rfl, index, rfl, rfl⟩ := h
    simp [OutPoint.bytes, TxId.wire, TxId.ofWire, FixedBytes.reverse]
  · intro h
    subst h
    refine ⟨_, o.tx.wire, _, rfl, rfl, o.index, rfl, ?_⟩
    simp [TxId.wire, TxId.ofWire, FixedBytes.reverse]

namespace Input

/-- The input without its witness, with a body in place of its script. -/
def layout (i : Input) (body : Bytes) : Bytes :=
  i.outPoint.bytes ++ Varint.lengthPrefixed body ++ Bytes.ofUInt32 i.sequence

theorem reads_read : Input.read.Reads fun bs i =>
    ∃ ws : WireScript, (i.witness = [] ∧ i.script.Written ws) ∧ bs = i.layout ws.body := by
  refine (OutPoint.reads_read.liftCodec.bind fun _ o _ => Script.reads_read.liftWire.bind
    fun _ s _ => Reader.reads_uint32.liftCodec.map).congr fun bs i => ?_
  constructor
  · intro h
    obtain ⟨_, o, _, rfl, rfl, _, s, _, rfl, ⟨ws, hws, rfl⟩, sequence, rfl, rfl⟩ := h
    exact ⟨ws, ⟨rfl, hws⟩, by simp [layout]⟩
  · intro h
    obtain ⟨ws, ⟨hwitness, hws⟩, rfl⟩ := h
    refine ⟨_, _, _, List.append_assoc _ _ _, rfl, _, _, _, rfl, ⟨ws, hws, rfl⟩, _, rfl, ?_⟩
    rw [← hwitness]

/-- A witness whose number of items and whose items can have their lengths written in front. -/
def WitnessFits (i : Input) : Prop :=
  i.witness.length < UInt64.size ∧ ∀ item ∈ i.witness, item.length < UInt64.size

theorem reads_readWitnessItem : readWitnessItem.Reads fun bs item =>
    item.length < UInt64.size ∧ bs = Varint.lengthPrefixed item := by
  refine (Varint.reads_read.liftCodec.bind fun _ n _ =>
    (Reader.reads_bytes n).liftCodec).congr fun bs item => ?_
  constructor
  · intro h
    obtain ⟨_, n, _, rfl, ⟨hlt, rfl⟩, rfl, rfl⟩ := h
    exact ⟨hlt, rfl⟩
  · intro h
    obtain ⟨hlt, rfl⟩ := h
    exact ⟨_, _, _, rfl, ⟨hlt, rfl⟩, rfl, rfl⟩

def bare (i : Input) : Input :=
  { i with witness := [] }

theorem reads_readWitness {i : Input} (hi : i.witness = []) : i.readWitness.Reads fun bs j =>
    j.bare = i ∧ j.WitnessFits ∧ bs = j.witnessBytes := by
  refine reads_readWitnessItem.counted.map.congr fun bs j => ?_
  simp only [Parser.each_eq_iff]
  constructor
  · intro h
    obtain ⟨witness, ⟨hlt, _, rfl, hfits, rfl⟩, rfl⟩ := h
    refine ⟨?_, ⟨hlt, hfits⟩, rfl⟩
    rw [bare, ← hi]
  · intro h
    obtain ⟨rfl, ⟨hlt, hfits⟩, rfl⟩ := h
    exact ⟨j.witness, ⟨hlt, _, rfl, hfits, rfl⟩, rfl⟩

end Input

namespace Output

def layout (o : Output) (body : Bytes) : Bytes :=
  Bytes.ofInt64 o.amount ++ Varint.lengthPrefixed body

theorem reads_read : Output.read.Reads fun bs o =>
    ∃ ws : WireScript, o.script.Written ws ∧ bs = o.layout ws.body := by
  refine (Reader.reads_int64.liftCodec.bind fun _ amount _ =>
    Script.reads_read.liftWire.map).congr fun bs o => ?_
  constructor
  · intro h
    obtain ⟨_, amount, _, rfl, rfl, s, ⟨ws, hws, rfl⟩, rfl⟩ := h
    exact ⟨ws, hws, rfl⟩
  · intro h
    obtain ⟨ws, hws, rfl⟩ := h
    exact ⟨_, _, _, rfl, rfl, _, ⟨ws, hws, rfl⟩, rfl⟩

end Output

namespace Transaction

def marker (segwit : Bool) : Bytes :=
  if segwit then [0x00, 0x01] else []

def inputsAndOutputsLayout (tx : Transaction) (ins outs : List Bytes) : Bytes :=
  Varint.encode tx.inputs.length ++ (List.zipWith Input.layout tx.inputs ins).flatten ++
    (Varint.encode tx.outputs.length ++ (List.zipWith Output.layout tx.outputs outs).flatten)

def witnessLayout (segwit : Bool) (inputs : List Input) : Bytes :=
  if segwit then inputs.flatMap Input.witnessBytes else []

/-- The bytes of a transaction with bodies in place of its scripts. -/
def layout (tx : Transaction) (ins outs : List Bytes) : Bytes :=
  Bytes.ofInt32 tx.version ++ marker tx.segwit ++ tx.inputsAndOutputsLayout ins outs ++
    witnessLayout tx.segwit tx.inputs ++ Bytes.ofUInt32 tx.lockTime

/-- The scripts of a transaction are written in certain forms. -/
structure Written (tx : Transaction) (ins outs : List WireScript) : Prop where
  inputs : List.Forall₂ (fun i ws => i.script.Written ws) tx.inputs ins
  outputs : List.Forall₂ (fun o ws => o.script.Written ws) tx.outputs outs

/-- Witnesses stand in the layout that has them, and nowhere else. -/
def WitnessesFit (segwit : Bool) (inputs : List Input) : Prop :=
  if segwit then ∀ i ∈ inputs, i.WitnessFits else ∀ i ∈ inputs, i.witness = []

/-- A transaction that bytes can give: its counts can be written, and the count of inputs is no
marker. -/
structure Readable (tx : Transaction) : Prop where
  inputs_lt : tx.inputs.length < UInt64.size
  outputs_lt : tx.outputs.length < UInt64.size
  witnesses : WitnessesFit tx.segwit tx.inputs
  inputs_ne : tx.segwit = false → tx.inputs ≠ []

theorem reads_flag (flag : UInt8) :
    (do
      if flag ≠ 1 then throw (.segwitMarker flag)
      return true : Parser WireError Bool).Reads fun bs segwit =>
        flag = 1 ∧ bs = [] ∧ segwit = true := by
  split
  next h =>
    refine (Parser.Reads.throw_bind _ _).congr fun bs segwit => ?_
    simp [h]
  next h =>
    refine (Parser.Reads.pure true).congr fun bs segwit => ?_
    simp [Decidable.not_not.mp h]

def readMarkerAndFlag : Parser WireError Bool := do
  let _ ← Reader.uint8
  let flag ← Reader.uint8
  if flag ≠ 1 then throw (.segwitMarker flag)
  return true

theorem reads_markerAndFlag :
    readMarkerAndFlag.Reads fun bs segwit => ∃ b, bs = [b, 1] ∧ segwit = true := by
  refine (Reader.reads_uint8.liftCodec.bind fun _ _ _ => Reader.reads_uint8.liftCodec.bind
    fun _ flag _ => reads_flag flag).congr fun bs segwit => ?_
  constructor
  · intro h
    obtain ⟨_, b, _, rfl, rfl, _, _, _, rfl, rfl, rfl, rfl, rfl⟩ := h
    exact ⟨b, rfl, rfl⟩
  · intro h
    obtain ⟨b, rfl, rfl⟩ := h
    exact ⟨[b], b, [1], rfl, rfl, [1], 1, [], rfl, rfl, rfl, rfl, rfl⟩

theorem readMarker_eq (r : Reader) : readMarker r =
    if r.rest.head? = some 0 then readMarkerAndFlag r else .ok (false, r) := by
  rw [List.head?_eq_getElem?]
  show (if r.peek? 0 = some 0 then readMarkerAndFlag else pure false : Parser WireError Bool) r = _
  unfold Reader.peek?
  split
  next => rfl
  next => rfl

theorem readMarker_eq_ok_iff {r r' : Reader} {segwit : Bool} :
    readMarker r = .ok (segwit, r') ↔ r.rest = marker segwit ++ r'.rest ∧
      r'.position = r.position + (marker segwit).length ∧
        (segwit = false → r.rest.head? ≠ some 0) := by
  rw [readMarker_eq]
  split
  next hzero =>
    rw [reads_markerAndFlag r segwit r']
    constructor
    · intro h
      obtain ⟨_, ⟨b, rfl, rfl⟩, hrest, hposition⟩ := h
      have hb : b = 0 := by simpa [hrest] using hzero
      subst hb
      exact ⟨hrest, hposition, by simp⟩
    · intro h
      obtain ⟨hrest, hposition, hhead⟩ := h
      cases segwit with
      | false => exact absurd hzero (hhead rfl)
      | true => exact ⟨_, ⟨0, rfl, rfl⟩, hrest, hposition⟩
  next hzero =>
    constructor
    · intro h
      cases Except.ok.inj h
      exact ⟨rfl, rfl, fun _ => hzero⟩
    · intro h
      obtain ⟨hrest, hposition, _⟩ := h
      cases segwit with
      | true => exact absurd (congrArg List.head? hrest) hzero
      | false =>
        obtain ⟨position, rest⟩ := r
        obtain ⟨position', rest'⟩ := r'
        cases hrest
        cases hposition
        rfl

theorem reads_marker {β : Type} {f : Bool → Parser WireError β} {Rest : Bool → Bytes → β → Prop}
    (hf : ∀ segwit, (f segwit).Reads (Rest segwit)) (hne : ∀ b, ¬Rest false [] b) :
    (readMarker >>= f).Reads fun bs b => ∃ segwit cs, bs = marker segwit ++ cs ∧
      Rest segwit cs b ∧ (segwit = false → cs.head? ≠ some 0) := by
  intro r b r'
  simp only [Parser.bind_eq_ok_iff, readMarker_eq_ok_iff]
  constructor
  · intro h
    obtain ⟨segwit, s, ⟨hrest, hposition, hhead⟩, hs⟩ := h
    obtain ⟨cs, hcs, hrest', hposition'⟩ := (hf segwit _ _ _).mp hs
    refine ⟨marker segwit ++ cs, ⟨segwit, cs, rfl, hcs, ?_⟩, ?_, ?_⟩
    · intro hlegacy hzero
      subst hlegacy
      refine hhead rfl ?_
      rw [hrest, hrest', show marker false = [] from rfl, List.nil_append]
      rw [List.head?_append, hzero]
      rfl
    · rw [hrest, hrest', List.append_assoc]
    · rw [hposition', hposition, List.length_append, Nat.add_assoc]
  · intro h
    obtain ⟨_, ⟨segwit, cs, rfl, hcs, hhead⟩, hrest, hposition⟩ := h
    rw [List.append_assoc] at hrest
    rw [List.length_append, ← Nat.add_assoc] at hposition
    refine ⟨segwit, ⟨r.position + (marker segwit).length, cs ++ r'.rest⟩, ⟨hrest, rfl, ?_⟩,
      (hf segwit _ _ _).mpr ⟨cs, hcs, rfl, hposition⟩⟩
    intro hlegacy
    subst hlegacy
    -- The first byte is one that the parser behind the marker takes, as it takes no empty text.
    cases cs with
    | nil => exact (hne b hcs).elim
    | cons c cs =>
      rw [hrest, show marker false = [] from rfl]
      simpa using hhead rfl

theorem map_bare_eq_self {inputs : List Input} (h : ∀ i ∈ inputs, i.witness = []) :
    inputs.map Input.bare = inputs := by
  refine (List.map_congr_left fun i hi => ?_).trans (List.map_id inputs)
  rw [Input.bare, ← h i hi]
  rfl

theorem reads_witnesses {β : Type} (segwit : Bool) {inputs : List Input}
    (h : ∀ i ∈ inputs, i.witness = []) {f : List Input → Parser WireError β}
    {Rest : List Input → Bytes → β → Prop} (hf : ∀ js, (f js).Reads (Rest js)) :
    (if segwit then Parser.forEach Input.readWitness inputs >>= f else pure inputs >>= f :
      Parser WireError β).Reads fun bs b => ∃ js ds, bs = witnessLayout segwit js ++ ds ∧
        (js.map Input.bare = inputs ∧ WitnessesFit segwit js) ∧ Rest js ds b := by
  cases segwit with
  | true =>
    refine ((Parser.Reads.forEach fun i hi => Input.reads_readWitness (h i hi)).bind
      fun _ js _ => hf js).congr fun bs b => ?_
    simp only [Parser.each_eq_iff]
    constructor
    · intro h
      obtain ⟨_, js, ds, rfl, ⟨hbare, hfit, rfl⟩, hb⟩ := h
      exact ⟨js, ds, rfl, ⟨hbare, hfit⟩, hb⟩
    · intro h
      obtain ⟨js, ds, rfl, ⟨hbare, hfit⟩, hb⟩ := h
      exact ⟨_, js, ds, rfl, ⟨hbare, hfit, rfl⟩, hb⟩
  | false =>
    refine ((Parser.Reads.pure inputs).bind fun _ js _ => hf js).congr fun bs b => ?_
    constructor
    · intro h
      obtain ⟨_, js, ds, rfl, ⟨rfl, rfl⟩, hb⟩ := h
      exact ⟨js, ds, rfl, ⟨map_bare_eq_self h, h⟩, hb⟩
    · intro h
      obtain ⟨js, ds, hbs, ⟨hbare, hfit⟩, hb⟩ := h
      rw [map_bare_eq_self hfit] at hbare
      exact ⟨[], js, ds, hbs, ⟨rfl, hbare⟩, hb⟩

theorem head?_inputsAndOutputsLayout {tx : Transaction} {ins outs : List Bytes} {bs : Bytes} :
    (tx.inputsAndOutputsLayout ins outs ++ bs).head? = some 0 ↔ tx.inputs = [] := by
  simp only [inputsAndOutputsLayout, List.append_assoc]
  rw [Varint.head?_encode_append, List.length_eq_zero_iff]

theorem reads_behindMarker (version : Int32) (segwit testnet : Bool) :
    (do
      let inputs ← Input.read.counted
      let outputs ← Output.read.counted
      let inputs ← if segwit then Parser.forEach Input.readWitness inputs else pure inputs
      let lockTime ← Reader.uint32
      return { version, inputs, outputs, lockTime, segwit, testnet } :
      Parser WireError Transaction).Reads fun bs tx =>
        tx.version = version ∧ tx.segwit = segwit ∧ tx.testnet = testnet ∧
        tx.inputs.length < UInt64.size ∧ tx.outputs.length < UInt64.size ∧
        WitnessesFit segwit tx.inputs ∧ ∃ ins outs, tx.Written ins outs ∧
          bs = tx.inputsAndOutputsLayout (ins.map WireScript.body) (outs.map WireScript.body) ++
            witnessLayout segwit tx.inputs ++ Bytes.ofUInt32 tx.lockTime := by
  refine (Input.reads_read.counted.bind fun _ inputs hinputs =>
    Output.reads_read.counted.bind fun _ outputs _ =>
      reads_witnesses segwit ?_ fun js => Reader.reads_uint32.liftCodec.map).congr fun bs tx => ?_
  -- Witnesses are read into the inputs, which must come without any.
  · obtain ⟨_, _, _, heach⟩ := hinputs
    exact heach.forall_mem fun _ _ htext => htext.choose_spec.1.1
  simp only [Parser.each_exists_iff]
  constructor
  · intro h
    obtain ⟨_, inputs, _, rfl, ⟨hin, _, rfl, ins, hins, rfl⟩, _, outputs, _, rfl, ⟨hout, _, rfl,
      outs, houts, rfl⟩, js, _, rfl, ⟨rfl, hfit⟩, lockTime, rfl, rfl⟩ := h
    have hwritten := (List.forall₂_map_left_iff.mp hins).imp fun _ _ h => h.2
    refine ⟨rfl, rfl, rfl, by simpa using hin, hout, hfit, ins, outs, ⟨hwritten, houts⟩, ?_⟩
    simp [inputsAndOutputsLayout, List.zipWith_map_left, List.zipWith_map_right, Input.bare,
      Input.layout]
  · intro h
    obtain ⟨rfl, rfl, rfl, hin, hout, hfit, ins, outs, ⟨hins, houts⟩, rfl⟩ := h
    have hwritten : List.Forall₂ (fun i ws => i.witness = [] ∧ i.script.Written ws)
        (tx.inputs.map Input.bare) ins :=
      List.forall₂_map_left_iff.mpr (hins.imp fun _ _ h => ⟨rfl, h⟩)
    refine ⟨_, tx.inputs.map Input.bare, _, ?_, ⟨by simpa using hin, _, rfl, ins, hwritten, rfl⟩,
      _, tx.outputs, _, rfl, ⟨hout, _, rfl, outs, houts, rfl⟩, tx.inputs, _, rfl, ⟨rfl, hfit⟩,
      tx.lockTime, rfl, rfl⟩
    simp [inputsAndOutputsLayout, List.zipWith_map_left, List.zipWith_map_right, Input.bare,
      Input.layout]

theorem reads_read (testnet : Bool) : (read testnet).Reads fun bs tx =>
    tx.testnet = testnet ∧ tx.Readable ∧ ∃ ins outs, tx.Written ins outs ∧
      bs = tx.layout (ins.map WireScript.body) (outs.map WireScript.body) := by
  refine (Reader.reads_int32.liftCodec.bind fun _ version _ =>
    reads_marker (fun segwit => reads_behindMarker version segwit testnet) ?_).congr fun bs tx => ?_
  · intro tx h
    obtain ⟨_, _, _, _, _, _, ins, outs, _, h⟩ := h
    simp only [inputsAndOutputsLayout, List.append_assoc] at h
    exact Varint.encode_ne_nil _ (List.append_eq_nil_iff.mp h.symm).1
  constructor
  · intro h
    obtain ⟨_, version, _, rfl, rfl, segwit, _, rfl,
      ⟨rfl, rfl, rfl, hin, hout, hfit, ins, outs, hwritten, rfl⟩, hhead⟩ := h
    refine ⟨rfl, ⟨hin, hout, hfit, fun hlegacy hnone => hhead hlegacy ?_⟩, ins, outs, hwritten,
      by simp [layout]⟩
    rw [List.append_assoc, head?_inputsAndOutputsLayout]
    exact hnone
  · intro h
    obtain ⟨rfl, ⟨hin, hout, hfit, hne⟩, ins, outs, hwritten, rfl⟩ := h
    refine ⟨_, tx.version, _, ?_, rfl, tx.segwit, _, rfl,
      ⟨rfl, rfl, rfl, hin, hout, hfit, ins, outs, hwritten, rfl⟩, ?_⟩
    · simp [layout]
    · intro hlegacy
      rw [List.append_assoc, ne_eq, head?_inputsAndOutputsLayout]
      exact hne hlegacy

/-- Data reads as a transaction just if it is the bytes of that transaction with its scripts written
in some forms. -/
theorem ofBytes_eq_ok_iff {data : Bytes} {testnet : Bool} {tx : Transaction} :
    ofBytes data testnet = .ok tx ↔ tx.testnet = testnet ∧ tx.Readable ∧
      ∃ ins outs, tx.Written ins outs ∧
        data = tx.layout (ins.map WireScript.body) (outs.map WireScript.body) := by
  constructor
  · intro h
    cases hr : read testnet ⟨0, data⟩ with
    | error e => simp [ofBytes, Reader.ofBytes, hr, bind, Except.bind] at h
    | ok x =>
      obtain ⟨t, position, rest⟩ := x
      simp only [ofBytes, Reader.ofBytes, hr, bind, Except.bind] at h
      split at h
      next hend =>
        obtain rfl := List.isEmpty_iff.mp hend
        cases Except.ok.inj h
        obtain ⟨bs, ⟨htestnet, hreadable, ins, outs, hwritten, rfl⟩, hdata, _⟩ :=
          (reads_read testnet _ _ _).mp hr
        exact ⟨htestnet, hreadable, ins, outs, hwritten, by simpa using hdata⟩
      next => cases h
  · intro h
    obtain ⟨htestnet, hreadable, ins, outs, hwritten, rfl⟩ := h
    have hr := (reads_read testnet ⟨0, tx.layout (ins.map WireScript.body)
      (outs.map WireScript.body)⟩ tx ⟨0 + _, []⟩).mpr
        ⟨_, ⟨htestnet, hreadable, ins, outs, hwritten, rfl⟩, (List.append_nil _).symm, rfl⟩
    simp [ofBytes, Reader.ofBytes, hr, bind, Except.bind, pure, Except.pure]

end Transaction

end BitcoinSpend

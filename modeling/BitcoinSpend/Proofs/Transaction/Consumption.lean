import BitcoinSpend.Proofs.Bytes.Rounds
import BitcoinSpend.Proofs.Transaction.RoundTrip

namespace BitcoinSpend

/-- What a parser takes from the front of the data is a text of its result. -/
theorem Parser.Reads.text_take {ε α : Type} {p : Parser ε α} {Text : Bytes → α → Prop}
    (hp : p.Reads Text) {b : Bytes} {a : α} {r : Reader} (h : p (Reader.ofBytes b) = .ok (a, r)) :
    r.position ≤ b.length ∧ Text (b.take r.position) a := by
  obtain ⟨bs, hbs, hrest, hposition⟩ := (hp _ _ _).mp h
  have hb : b = bs ++ r.rest := hrest
  have hk : r.position = bs.length := by
    rw [hposition]
    exact Nat.zero_add _
  rw [hb, hk, List.take_left']
  · exact ⟨by simp, hbs⟩
  · rfl

section

variable {α : Type} {xs : List α}

theorem mul_length_le_zipWith_flatten {f : α → Bytes → Bytes} {size : Nat}
    (hf : ∀ x bs, size ≤ (f x bs).length) {bodies : List Bytes} (hlen : xs.length = bodies.length) :
    size * xs.length ≤ (List.zipWith f xs bodies).flatten.length := by
  induction xs generalizing bodies with
  | nil => exact Nat.zero_le _
  | cons x xs ih =>
    cases bodies with
    | nil => simp at hlen
    | cons body bodies =>
      have hfirst := hf x body
      have hrest := ih (Nat.succ.inj hlen)
      rw [List.zipWith_cons_cons, List.flatten_cons, List.length_append, List.length_cons,
        Nat.mul_succ]
      omega

end

theorem Varint.length_items_le (items : List Bytes) :
    items.length + items.flatten.length ≤ (items.flatMap lengthPrefixed).length := by
  induction items with
  | nil => exact Nat.le_refl _
  | cons item items ih =>
    have hitem := length_lt_lengthPrefixed item
    rw [List.flatten_cons, List.flatMap_cons, List.length_append, List.length_append,
      List.length_cons]
    omega

theorem Varint.one_le_length_encode (n : Nat) : 1 ≤ (encode n).length :=
  List.length_pos_iff.mpr (encode_ne_nil n)

namespace Input

theorem length_layout_ge (i : Input) (body : Bytes) : 41 ≤ (i.layout body).length := by
  have hbody := Varint.length_lt_lengthPrefixed body
  have hhash := i.outPoint.tx.wire.length_eq
  simp only [layout, OutPoint.bytes, Bytes.ofUInt32, List.length_append, Bytes.length_ofNatLE,
    hhash]
  omega

theorem length_witnesses_le (inputs : List Input) :
    (inputs.flatMap witness).length + (inputs.flatMap witness).flatten.length ≤
      (inputs.flatMap witnessBytes).length := by
  induction inputs with
  | nil => exact Nat.le_refl _
  | cons i inputs ih =>
    have hitems := Varint.length_items_le i.witness
    simp only [List.flatMap_cons, List.flatten_append, List.length_append, witnessBytes]
    omega

end Input

theorem Output.length_layout_ge (o : Output) (body : Bytes) : 9 ≤ (o.layout body).length := by
  have hbody := Varint.length_lt_lengthPrefixed body
  simp only [layout, Bytes.ofInt64, List.length_append, Bytes.length_ofNatLE]
  omega

namespace Transaction

/-- Items of a transaction take bytes of their own. -/
theorem length_layout_ge {tx : Transaction} {ins outs : List WireScript} (hread : tx.Readable)
    (hwritten : tx.Written ins outs) :
    41 * tx.inputs.length + 9 * tx.outputs.length + ((tx.inputs.flatMap Input.witness).length +
        (tx.inputs.flatMap Input.witness).flatten.length) ≤
      (tx.layout (ins.map WireScript.body) (outs.map WireScript.body)).length := by
  have hins : 41 * tx.inputs.length ≤
      (List.zipWith Input.layout tx.inputs (ins.map WireScript.body)).flatten.length :=
    mul_length_le_zipWith_flatten Input.length_layout_ge
      (by simpa using hwritten.inputs.length_eq)
  have houts : 9 * tx.outputs.length ≤
      (List.zipWith Output.layout tx.outputs (outs.map WireScript.body)).flatten.length :=
    mul_length_le_zipWith_flatten Output.length_layout_ge
      (by simpa using hwritten.outputs.length_eq)
  have hwitnesses : (tx.inputs.flatMap Input.witness).length +
      (tx.inputs.flatMap Input.witness).flatten.length ≤
        (witnessLayout tx.segwit tx.inputs).length := by
    have hfit := hread.witnesses
    cases hsegwit : tx.segwit with
    | true => exact Input.length_witnesses_le tx.inputs
    | false =>
      rw [hsegwit] at hfit
      have hnone : tx.inputs.flatMap Input.witness = [] := List.flatMap_eq_nil_iff.mpr hfit
      rw [hnone]
      exact Nat.le_refl _
  simp only [layout, inputsAndOutputsLayout, List.length_append]
  omega

theorem ofBytes_of_read {data : Bytes} {testnet : Bool} {tx : Transaction} {r : Reader}
    (h : read testnet (Reader.ofBytes data) = .ok (tx, r)) : ofBytes data testnet =
      if r.rest.isEmpty then .ok tx else .error (.trailingBytes r.rest.length) := by
  simp only [ofBytes, h, bind, Except.bind]
  split <;> rfl

theorem read_of_ofBytes {data : Bytes} {testnet : Bool} {tx : Transaction}
    (h : ofBytes data testnet = .ok tx) :
    ∃ r, read testnet (Reader.ofBytes data) = .ok (tx, r) ∧ r.rest = [] := by
  cases hr : read testnet (Reader.ofBytes data) with
  | error e => simp [ofBytes, hr, bind, Except.bind] at h
  | ok x =>
    obtain ⟨t, r⟩ := x
    rw [ofBytes_of_read hr] at h
    split at h
    next hend =>
      cases h
      exact ⟨r, rfl, List.isEmpty_iff.mp hend⟩
    next => cases h

/-- A transaction is read alike whatever stands behind it, and not at all if it is cut short. -/
theorem read_take {b : Bytes} {testnet : Bool} {tx : Transaction} {r : Reader}
    (h : read testnet (Reader.ofBytes b) = .ok (tx, r)) :
    (∀ x, read testnet (Reader.ofBytes (b.take r.position ++ x)) = .ok (tx, ⟨r.position, x⟩)) ∧
    ∀ j, j < r.position → ∃ e, ofBytes (b.take j) testnet = .error e := by
  obtain ⟨hle, htext⟩ := (reads_read testnet).text_take h
  constructor
  · intro x
    refine (reads_read testnet _ _ _).mpr ⟨_, htext, rfl, ?_⟩
    rw [List.length_take, Nat.min_eq_left hle]
    exact (Nat.zero_add _).symm
  · intro j hj
    cases hcut : ofBytes (b.take j) testnet with
    | error e => exact ⟨e, rfl⟩
    | ok tx' =>
      -- Both texts stand at the front of the same data.
      obtain ⟨r', hread, hend⟩ := read_of_ofBytes hcut
      obtain ⟨bs, htext', hrest, _⟩ := (reads_read testnet _ _ _).mp hread
      rw [hend, List.append_nil] at hrest
      have hrest : b.take j = bs := hrest
      rw [← hrest] at htext'
      have hsame : b.take j ++ b.drop j = b.take r.position ++ b.drop r.position := by
        rw [List.take_append_drop, List.take_append_drop]
      obtain ⟨htake, _⟩ := (reads_read testnet).unique htext' htext hsame
      have hlen := congrArg List.length htake
      rw [List.length_take, List.length_take] at hlen
      omega

/-- The loops that read a transaction. -/
inductive Loop where
  | inputs
  | outputs
  | items
  | witnesses
deriving DecidableEq

/-- Each loop once. Those of items stand inside those of witnesses. -/
def Loop.all : List Loop :=
  [.inputs, .outputs, .items, .witnesses]

/-- The rounds of a loop that reading a transaction takes. -/
def roundsOf (tx : Transaction) : Loop → Nat
  | .inputs => tx.inputs.length
  | .outputs => tx.outputs.length
  | .items => (tx.inputs.flatMap Input.witness).length
  | .witnesses => if tx.segwit then tx.inputs.length else 0

end Transaction

open Transaction (Loop)

def Traced.counted {α : Type} (loop : Loop) (t : Traced Loop WireError α) :
    Traced Loop WireError (List α) := do
  let count ← Varint.read
  replicate loop t count

def Input.tracedWitness (i : Input) : Traced Loop WireError Input := do
  let witness ← Traced.counted .items readWitnessItem
  return { i with witness }

/-- Reads a transaction and tells the rounds of the loops. -/
def Transaction.traced (testnet : Bool) : Traced Loop WireError Transaction := do
  let version ← Reader.int32
  let segwit ← readMarker
  let inputs ← Traced.counted .inputs Input.read
  let outputs ← Traced.counted .outputs Output.read
  let inputs ← if segwit then Traced.forEach .witnesses Input.tracedWitness inputs else pure inputs
  let lockTime ← Reader.uint32
  return { version, inputs, outputs, lockTime, segwit, testnet }

theorem Traced.Traces.counted {α : Type} {t : Traced Loop WireError α} {p : Parser WireError α}
    (loop : Loop) (h : t.Traces p) : (t.counted loop).Traces p.counted :=
  (lift _).bind fun count => h.replicate loop count

theorem Input.traces_witness (i : Input) : i.tracedWitness.Traces i.readWitness :=
  ((Traced.Traces.lift _).counted .items).bind fun _ => .pure _

theorem Transaction.traces_read (testnet : Bool) : (traced testnet).Traces (read testnet) := by
  refine (Traced.Traces.lift _).bind fun version => (Traced.Traces.lift _).bind fun segwit => ?_
  refine ((Traced.Traces.lift _).counted .inputs).bind fun inputs => ?_
  refine ((Traced.Traces.lift _).counted .outputs).bind fun outputs => ?_
  exact .ite (((Traced.Traces.forEach .witnesses Input.traces_witness inputs)).bind fun inputs =>
      (Traced.Traces.lift _).bind fun lockTime => .pure _)
    ((Traced.Traces.pure inputs).bind fun inputs =>
      (Traced.Traces.lift _).bind fun lockTime => .pure _)

theorem Traced.Paced.counted {α : Type} {t : Traced Loop WireError α} (loops : List Loop)
    (loop : Loop) (h : Paced loops 1 t) : Paced (loops ++ [loop]) 1 (t.counted loop) := by
  have hcount : Parser.Takes 1 (liftM Varint.read : Parser WireError Nat) := by
    refine Varint.reads_read.liftCodec.takes fun bs n htext => ?_
    rw [htext.2]
    exact Varint.one_le_length_encode n
  exact (lift hcount).bind fun count => h.replicate loop count

namespace Input

theorem takes_read : Input.read.Takes 1 := by
  refine Input.reads_read.takes fun bs i htext => ?_
  obtain ⟨ws, _, rfl⟩ := htext
  exact Nat.le_trans (by decide) (i.length_layout_ge ws.body)

theorem takes_readWitnessItem : readWitnessItem.Takes 1 := by
  refine reads_readWitnessItem.takes fun bs item htext => ?_
  rw [htext.2]
  exact Nat.zero_lt_of_lt (Varint.length_lt_lengthPrefixed item)

theorem paced_tracedWitness (i : Input) : i.tracedWitness.Paced [.items] 1 :=
  (Traced.Paced.counted [] .items (.lift takes_readWitnessItem)).bind fun _ => .pure _

end Input

theorem Output.takes_read : Output.read.Takes 1 := by
  refine Output.reads_read.takes fun bs o htext => ?_
  obtain ⟨ws, _, rfl⟩ := htext
  exact Nat.le_trans (by decide) (o.length_layout_ge ws.body)

namespace Transaction

theorem takes_readMarker : readMarker.Takes 0 := by
  intro r segwit r' h
  obtain ⟨hrest, hposition, _⟩ := readMarker_eq_ok_iff.mp h
  rw [hrest, List.length_append]
  omega

/-- Reading a transaction fails in at most one round of each loop. -/
theorem paced_traced (testnet : Bool) : (traced testnet).Paced Loop.all 0 := by
  have hfixed : ∀ {α : Type} {p : Parser CodecError α} {Text : Bytes → α → Prop}, p.Reads Text →
      (liftM p : Parser WireError α).Takes 0 :=
    fun hp => hp.liftCodec.takes fun _ _ _ => Nat.zero_le _
  have hinputs : (Traced.counted .inputs Input.read).Paced Loop.all 0 :=
    (Traced.Paced.counted [] .inputs (.lift Input.takes_read)).mono (by decide) (Nat.zero_le 1)
  have houtputs : (Traced.counted .outputs Output.read).Paced Loop.all 0 :=
    (Traced.Paced.counted [] .outputs (.lift Output.takes_read)).mono (by decide) (Nat.zero_le 1)
  have hwitnesses : ∀ inputs : List Input,
      (Traced.forEach .witnesses Input.tracedWitness inputs).Paced Loop.all 0 := fun inputs =>
    (Traced.Paced.forEach Loop.witnesses Input.paced_tracedWitness inputs).mono (by decide)
      (Nat.le_refl 0)
  have hlockTime : (liftM (liftM Reader.uint32 : Parser WireError UInt32) :
      Traced Loop WireError UInt32).Paced Loop.all 0 := .lift (hfixed Reader.reads_uint32)
  exact (Traced.Paced.lift (hfixed Reader.reads_int32)).bind fun version =>
    (Traced.Paced.lift takes_readMarker).bind fun segwit =>
      hinputs.bind fun inputs => houtputs.bind fun outputs => .ite
        ((hwitnesses inputs).bind fun _ => hlockTime.bind fun _ => .pure _)
        ((Traced.Paced.pure inputs).bind fun _ => hlockTime.bind fun _ => .pure _)

theorem tells_counted {α : Type} (loop : Loop) (p : Parser WireError α) :
    (Traced.counted loop p).Tells fun as rounds =>
      ∀ l, Round.completedOf l rounds = if loop = l then as.length else 0 := by
  have hitem : (liftM p : Traced Loop WireError α).Tells fun _ rounds =>
      ∀ l, Round.completedOf l rounds = 0 := .lift fun _ _ => rfl
  exact .lift_bind fun count =>
    (hitem.replicate loop count).mono fun as rounds has l => by simp [has]

theorem tells_tracedWitness (i : Input) : i.tracedWitness.Tells fun i' rounds =>
    ∀ l, Round.completedOf l rounds = if Loop.items = l then i'.witness.length else 0 :=
  (tells_counted .items _).bind fun witness rounds hwitness => .pure fun l => by simp [hwitness]

/-- Reading a transaction completes as many rounds of each loop as there are items for it. -/
theorem tells_traced (testnet : Bool) : (traced testnet).Tells fun tx rounds =>
    WitnessesFit tx.segwit tx.inputs → ∀ l, Round.completedOf l rounds = tx.roundsOf l := by
  refine .lift_bind fun version => .lift_bind fun segwit => ?_
  refine (tells_counted .inputs _).bind fun inputs xs hinputs => ?_
  refine (tells_counted .outputs _).bind fun outputs ys houtputs => ?_
  cases segwit with
  | true =>
    refine (Traced.Tells.forEach Loop.witnesses tells_tracedWitness inputs).bind
      fun inputs' zs hall => .lift_bind fun lockTime => .pure fun _ l => ?_
    obtain ⟨hlength, hzs⟩ := hall
    simp only [Round.completedOf_append, List.append_nil, hinputs, houtputs, hzs, roundsOf]
    cases l <;> simp [hlength, List.length_flatMap]
  | false =>
    refine .bind (.pure (Q := fun inputs' zs => inputs' = inputs ∧ zs = []) ⟨rfl, rfl⟩) ?_
    rintro inputs' _ ⟨rfl, rfl⟩
    refine .lift_bind fun lockTime => .pure fun hnone l => ?_
    have hitems : inputs'.flatMap Input.witness = [] := List.flatMap_eq_nil_iff.mpr hnone
    simp only [Round.completedOf_append, List.append_nil, hinputs, houtputs, roundsOf]
    cases l <;> simp [hitems]

/-- Whether the data is read or not, the rounds that are completed take a byte each. -/
theorem rounds_le (testnet : Bool) (b : Bytes) :
    let rounds := (traced testnet (Reader.ofBytes b)).2
    (∀ x ∈ rounds, ∀ stop, x.stop = some stop → x.start < stop ∧ stop ≤ b.length) ∧
      Round.completed rounds ≤ b.length ∧ (Round.unfinished rounds).Sublist Loop.all := by
  have hpace := paced_traced testnet (Reader.ofBytes b)
  have hstart : (Reader.ofBytes b).position + (Reader.ofBytes b).rest.length = b.length :=
    Nat.zero_add _
  generalize traced testnet (Reader.ofBytes b) = outcome at hpace
  cases hpace with
  | ok hadvance hdone hgain hsame =>
    refine ⟨hstart ▸ hadvance, ?_, ?_⟩
    · dsimp only
      omega
    · rw [hdone]
      exact List.nil_sublist _
  | error hadvance hle hunfinished =>
    exact ⟨hstart ▸ hadvance, hle, hunfinished⟩

/-- Reading a transaction is prefix-free and never amplifies. What is read of some bytes is read of
the bytes that it took whatever stands behind them, which is counted as trailing, and of no fewer
bytes; they are no fewer than its items need, and each loop has completed a round for each item that
it reads. In all data every round of a loop that is completed takes a byte, so there are no more
rounds than bytes and one for each loop. -/
theorem reading_prefixFree_and_bounded (testnet : Bool) (b : Bytes) :
    (∀ tx r, read testnet (Reader.ofBytes b) = .ok (tx, r) →
      r.position ≤ b.length ∧
      (∀ x, read testnet (Reader.ofBytes (b.take r.position ++ x)) = .ok (tx, ⟨r.position, x⟩)) ∧
      ofBytes (b.take r.position) testnet = .ok tx ∧
      (∀ x, x ≠ [] →
        ofBytes (b.take r.position ++ x) testnet = .error (.trailingBytes x.length)) ∧
      (∀ j, j < r.position → ∃ e, ofBytes (b.take j) testnet = .error e) ∧
      41 * tx.inputs.length + 9 * tx.outputs.length + ((tx.inputs.flatMap Input.witness).length +
        (tx.inputs.flatMap Input.witness).flatten.length) ≤ r.position ∧
      ∀ loop, Round.completedOf loop (traced testnet (Reader.ofBytes b)).2 = tx.roundsOf loop) ∧
    (traced testnet (Reader.ofBytes b)).1 = read testnet (Reader.ofBytes b) ∧
    let rounds := (traced testnet (Reader.ofBytes b)).2
    (∀ x ∈ rounds, ∀ stop, x.stop = some stop → x.start < stop ∧ stop ≤ b.length) ∧
      Round.completed rounds ≤ b.length ∧ (Round.unfinished rounds).Sublist Loop.all ∧
      rounds.length ≤ b.length + Loop.all.length := by
  refine ⟨?_, traces_read testnet _, ?_⟩
  · intro tx r h
    obtain ⟨hle, _, hreadable, ins, outs, hwritten, hlayout⟩ := (reads_read testnet).text_take h
    obtain ⟨hbehind, hcut⟩ := read_take h
    refine ⟨hle, hbehind, ?_, ?_, hcut, ?_, ?_⟩
    · have hwhole := hbehind []
      rw [List.append_nil] at hwhole
      exact ofBytes_of_read hwhole
    · intro x hx
      rw [ofBytes_of_read (hbehind x), if_neg (by simpa using hx)]
    · have hsize := length_layout_ge hreadable hwritten
      rw [← hlayout, List.length_take, Nat.min_eq_left hle] at hsize
      exact hsize
    · exact tells_traced testnet _ tx r ((traces_read testnet _).trans h) hreadable.witnesses
  · obtain ⟨hadvance, hcompleted, hunfinished⟩ := rounds_le testnet b
    refine ⟨hadvance, hcompleted, hunfinished, ?_⟩
    have hlast := hunfinished.length_le
    rw [Round.length_eq]
    omega

/-- One input with two witness items and one output. -/
def twoItemsData : Bytes :=
  [2, 0, 0, 0, 0, 1, 1] ++ List.replicate 37 0 ++ [7, 0, 0, 0, 1] ++ List.replicate 8 0 ++
    [1, 0x51] ++ [2, 0, 1, 9] ++ List.replicate 4 0

def twoItems : Transaction :=
  make 2 [⟨⟨⟨FixedBytes.zero 32⟩, 0⟩, [], 7, [[], [9]]⟩] [⟨0, [.op .pushOne]⟩] 0 false

/-- A transaction with one byte behind it, of which all but the last byte of the transaction is data
that ends too early. -/
theorem twoItems_read_from_front :
    read false (Reader.ofBytes (twoItemsData ++ [5])) = .ok (twoItems, ⟨67, [5]⟩) ∧
      ofBytes twoItemsData false = .ok twoItems ∧
      ofBytes (twoItemsData ++ [5]) false = .error (.trailingBytes 1) ∧
      (∃ e, ofBytes (twoItemsData.take 66) false = .error e) ∧
      Round.completedOf .items (traced false (Reader.ofBytes (twoItemsData ++ [5]))).2 = 2 ∧
      (traced false (Reader.ofBytes (twoItemsData ++ [5]))).2.length ≤ 72 := by
  have hread : read false (Reader.ofBytes (twoItemsData ++ [5])) = .ok (twoItems, ⟨67, [5]⟩) := by
    decide +kernel
  obtain ⟨hfront, _, _, _, _, hrounds⟩ :=
    reading_prefixFree_and_bounded false (twoItemsData ++ [5])
  obtain ⟨_, _, hwhole, htrailing, hcut, _, hloops⟩ := hfront _ _ hread
  exact ⟨hread, hwhole, htrailing [5] (by decide), hcut 66 (by decide), hloops .items, hrounds⟩

end Transaction

end BitcoinSpend

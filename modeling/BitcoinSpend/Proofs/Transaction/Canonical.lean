import BitcoinSpend.Proofs.Bytes.Hex
import BitcoinSpend.Proofs.Machine.Success
import BitcoinSpend.Proofs.Transaction.Layout

namespace BitcoinSpend

namespace Varint

theorem lengthPrefixed_append_inj {bs cs rest rest' : Bytes} (hbs : bs.length < UInt64.size)
    (hcs : cs.length < UInt64.size)
    (h : lengthPrefixed bs ++ rest = lengthPrefixed cs ++ rest') : bs = cs ∧ rest = rest' := by
  rw [lengthPrefixed, lengthPrefixed, List.append_assoc, List.append_assoc] at h
  obtain ⟨_, hlen, htail⟩ := reads_read.unique ⟨hbs, rfl⟩ ⟨hcs, rfl⟩ h
  exact List.append_inj htail hlen

end Varint

/-- Bodies that are told apart one by one are told apart when they are laid out in a row. -/
theorem zipWith_flatten_inj {α : Type} {f : α → Bytes → Bytes}
    (hf : ∀ x bs cs rest rest', bs.length < UInt64.size → cs.length < UInt64.size →
      f x bs ++ rest = f x cs ++ rest' → bs = cs ∧ rest = rest')
    {xs : List α} {bodies others : List Bytes} {rest rest' : Bytes}
    (hbodies : List.Forall₂ (fun _ bs => bs.length < UInt64.size) xs bodies)
    (hothers : List.Forall₂ (fun _ bs => bs.length < UInt64.size) xs others)
    (h : (List.zipWith f xs bodies).flatten ++ rest = (List.zipWith f xs others).flatten ++ rest') :
    bodies = others ∧ rest = rest' := by
  induction hbodies generalizing others with
  | nil =>
    cases hothers
    exact ⟨rfl, h⟩
  | cons hbs _ ih =>
    cases hothers with
    | cons hcs hothers =>
      simp only [List.zipWith_cons_cons, List.flatten_cons, List.append_assoc] at h
      obtain ⟨rfl, htail⟩ := hf _ _ _ _ _ hbs hcs h
      obtain ⟨rfl, hrest⟩ := ih hothers htail
      exact ⟨rfl, hrest⟩

theorem joinBytes_map {α β : Type} (f : β → Except ScriptError Bytes) (g : α → β) (xs : List α) :
    joinBytes f (xs.map g) = joinBytes (fun x => f (g x)) xs := by
  induction xs with
  | nil => rfl
  | cons x xs ih => simp only [List.map_cons, joinBytes, ih]

theorem joinBytes_zipWith {α : Type} {f : α → Except ScriptError Bytes}
    {g : α → WireScript → Bytes} {xs : List α} {wss : List WireScript}
    (h : List.Forall₂ (fun x ws => f x = .ok (g x ws)) xs wss) :
    joinBytes f xs = .ok (List.zipWith g xs wss).flatten := by
  induction h with
  | nil => rfl
  | cons hx _ ih => simp [joinBytes, hx, ih, bind, Except.bind, pure, Except.pure]

theorem Script.Written.shortest_length_lt {s : Script} {ws : WireScript} (h : s.Written ws) :
    ws.shortest.length < UInt64.size :=
  Nat.lt_of_le_of_lt ws.length_shortest_le h.length_lt

theorem Input.layout_append_inj {i : Input} {bs cs rest rest' : Bytes}
    (hbs : bs.length < UInt64.size) (hcs : cs.length < UInt64.size)
    (h : i.layout bs ++ rest = i.layout cs ++ rest') : bs = cs ∧ rest = rest' := by
  simp only [layout, List.append_assoc, List.append_cancel_left_eq] at h
  obtain ⟨hbody, hrest⟩ := Varint.lengthPrefixed_append_inj hbs hcs h
  exact ⟨hbody, List.append_cancel_left hrest⟩

theorem Output.layout_append_inj {o : Output} {bs cs rest rest' : Bytes}
    (hbs : bs.length < UInt64.size) (hcs : cs.length < UInt64.size)
    (h : o.layout bs ++ rest = o.layout cs ++ rest') : bs = cs ∧ rest = rest' := by
  simp only [layout, List.append_assoc, List.append_cancel_left_eq] at h
  exact Varint.lengthPrefixed_append_inj hbs hcs h

namespace Transaction

variable {tx : Transaction} {ins outs : List WireScript}

theorem inputsAndOutputs_eq_layout
    (hins : List.Forall₂ (fun i ws => WireScript.script ws = i.script) tx.inputs ins)
    (houts : List.Forall₂ (fun o ws => WireScript.script ws = o.script) tx.outputs outs) :
    tx.inputsAndOutputs = .ok (tx.inputsAndOutputsLayout (ins.map WireScript.shortest)
      (outs.map WireScript.shortest)) := by
  have hins : joinBytes Input.bytes tx.inputs =
      .ok (List.zipWith (fun i ws => i.layout ws.shortest) tx.inputs ins).flatten := by
    refine joinBytes_zipWith (hins.imp fun i ws hws => ?_)
    simp [Input.bytes, Input.bytesWith, ← hws, ws.bytes_script, Input.layout, bind, Except.bind,
      pure, Except.pure]
  have houts : joinBytes Output.bytes tx.outputs =
      .ok (List.zipWith (fun o ws => o.layout ws.shortest) tx.outputs outs).flatten := by
    refine joinBytes_zipWith (houts.imp fun o ws hws => ?_)
    simp [Output.bytes, ← hws, ws.bytes_script, Output.layout, bind, Except.bind, pure, Except.pure]
  simp [inputsAndOutputs, hins, houts, inputsAndOutputsLayout, List.zipWith_map_right, bind,
    Except.bind, pure, Except.pure]

theorem bytes_eq_layout
    (hins : List.Forall₂ (fun i ws => WireScript.script ws = i.script) tx.inputs ins)
    (houts : List.Forall₂ (fun o ws => WireScript.script ws = o.script) tx.outputs outs) :
    tx.bytes = .ok (tx.layout (ins.map WireScript.shortest) (outs.map WireScript.shortest)) := by
  have hbody := inputsAndOutputs_eq_layout hins houts
  cases hsegwit : tx.segwit with
  | true =>
    simp [bytes, segwitBytes, hsegwit, hbody, layout, marker, witnessLayout, bind, Except.bind,
      pure, Except.pure]
  | false =>
    simp [bytes, legacyBytes, hsegwit, hbody, layout, marker, witnessLayout, bind, Except.bind,
      pure, Except.pure]

theorem Written.bytes_eq (h : tx.Written ins outs) :
    tx.bytes = .ok (tx.layout (ins.map WireScript.shortest) (outs.map WireScript.shortest)) :=
  bytes_eq_layout (h.inputs.imp fun _ _ hws => hws.script_eq)
    (h.outputs.imp fun _ _ hws => hws.script_eq)

theorem id_of_bytes {bs : Bytes} (hlegacy : tx.segwit = false) (h : tx.bytes = .ok bs) :
    tx.id = .ok (TxId.ofWire (hash256 bs)) := by
  simp only [bytes, hlegacy, Bool.false_eq_true, if_false] at h
  simp [id, hash, h, bind, Except.bind, pure, Except.pure]

/-- What is read has an id, as its scripts can be written again. -/
theorem exists_id_of_ofBytes {data : Bytes} {testnet : Bool} (h : ofBytes data testnet = .ok tx) :
    ∃ id, tx.id = .ok id := by
  obtain ⟨_, _, ins, outs, hwritten, _⟩ := ofBytes_eq_ok_iff.mp h
  have hbody := inputsAndOutputs_eq_layout (hwritten.inputs.imp fun _ _ hws => hws.script_eq)
    (hwritten.outputs.imp fun _ _ hws => hws.script_eq)
  simp [id, hash, legacyBytes, hbody, bind, Except.bind, pure, Except.pure]

theorem exists_ofBytes_of_ofText {text : String} {testnet : Bool}
    (h : ofText text testnet = .ok tx) : ∃ data, ofBytes data testnet = .ok tx := by
  simp only [ofText, Except.bind_eq_ok_iff] at h
  obtain ⟨data, _, hdata⟩ := h
  exact ⟨data, hdata⟩

theorem ofText_encode (data : Bytes) (testnet : Bool) :
    ofText (Hex.encode data) testnet = ofBytes data testnet := by
  simp only [ofText, Hex.trim_encode, Hex.decode_encode, Except.mapError, bind, Except.bind]

theorem layout_inj {ins outs ins' outs' : List Bytes}
    (hins : List.Forall₂ (fun _ bs => bs.length < UInt64.size) tx.inputs ins)
    (hins' : List.Forall₂ (fun _ bs => bs.length < UInt64.size) tx.inputs ins')
    (houts : List.Forall₂ (fun _ bs => bs.length < UInt64.size) tx.outputs outs)
    (houts' : List.Forall₂ (fun _ bs => bs.length < UInt64.size) tx.outputs outs')
    (h : tx.layout ins outs = tx.layout ins' outs') : ins = ins' ∧ outs = outs' := by
  simp only [layout, inputsAndOutputsLayout, List.append_assoc, List.append_cancel_left_eq] at h
  obtain ⟨rfl, htail⟩ := zipWith_flatten_inj (f := Input.layout)
    (fun _ _ _ _ _ hbs hcs heq => Input.layout_append_inj hbs hcs heq) hins hins' h
  obtain ⟨rfl, _⟩ := zipWith_flatten_inj (f := Output.layout)
    (fun _ _ _ _ _ hbs hcs heq => Output.layout_append_inj hbs hcs heq) houts houts'
      (List.append_cancel_left htail)
  exact ⟨rfl, rfl⟩

theorem map_shortest_eq_iff {wss : List WireScript} :
    wss.map WireScript.shortest = wss.map WireScript.body ↔ ∀ ws ∈ wss, ws.IsShortest := by
  rw [List.map_inj_left]
  exact forall₂_congr fun ws _ => WireScript.shortest_eq_body_iff

theorem Written.layout_shortest_eq_iff (h : tx.Written ins outs) :
    tx.layout (ins.map WireScript.shortest) (outs.map WireScript.shortest) =
        tx.layout (ins.map WireScript.body) (outs.map WireScript.body) ↔
      ∀ ws ∈ ins ++ outs, ws.IsShortest := by
  rw [List.forall_mem_append, ← map_shortest_eq_iff, ← map_shortest_eq_iff]
  constructor
  · intro heq
    refine layout_inj ?_ ?_ ?_ ?_ heq
    all_goals rw [List.forall₂_map_right_iff]
    · exact h.inputs.imp fun _ _ hws => hws.shortest_length_lt
    · exact h.inputs.imp fun _ _ hws => hws.length_lt
    · exact h.outputs.imp fun _ _ hws => hws.shortest_length_lt
    · exact h.outputs.imp fun _ _ hws => hws.length_lt
  · intro hall
    rw [hall.1, hall.2]

/-- The layout is told by the byte behind the version. -/
theorem Readable.segwit_iff (h : tx.Readable) (ins outs : List Bytes) :
    tx.segwit = true ↔ (tx.layout ins outs)[4]? = some 0 := by
  have hversion : (Bytes.ofInt32 tx.version).length = 4 := Bytes.length_ofNatLE 4 _
  have hbehind : (tx.layout ins outs)[4]? =
      (marker tx.segwit ++ (tx.inputsAndOutputsLayout ins outs ++
        (witnessLayout tx.segwit tx.inputs ++ Bytes.ofUInt32 tx.lockTime))).head? := by
    simp only [layout, List.append_assoc]
    rw [List.getElem?_append_right (by omega), hversion, List.head?_eq_getElem?]
  rw [hbehind]
  cases hsegwit : tx.segwit with
  | true => simp [marker]
  | false =>
    have hne := h.inputs_ne hsegwit
    rw [show marker false = [] from rfl, List.nil_append, head?_inputsAndOutputsLayout]
    simp [hne]

/-- Data that reads as a transaction is written back with every push in its shortest form. It comes
back unchanged just if all its pushes are in that form, and without witnesses the id is the hash of
what is written. -/
theorem bytes_of_ofBytes {data : Bytes} {testnet : Bool} (h : ofBytes data testnet = .ok tx) :
    ∃ ins outs, tx.Written ins outs ∧
      data = tx.layout (ins.map WireScript.body) (outs.map WireScript.body) ∧
      (tx.segwit = true ↔ data[4]? = some 0) ∧
      ∃ written, tx.bytes = .ok written ∧
        written = tx.layout (ins.map WireScript.shortest) (outs.map WireScript.shortest) ∧
        (written = data ↔ ∀ ws ∈ ins ++ outs, ws.IsShortest) ∧
        (tx.segwit = false → tx.id = .ok (TxId.ofWire (hash256 written))) := by
  obtain ⟨_, hreadable, ins, outs, hwritten, rfl⟩ := ofBytes_eq_ok_iff.mp h
  exact ⟨ins, outs, hwritten, rfl, hreadable.segwit_iff _ _, _, hwritten.bytes_eq, rfl,
    hwritten.layout_shortest_eq_iff, fun hlegacy => id_of_bytes hlegacy hwritten.bytes_eq⟩

def onePush : Transaction :=
  make 1 [⟨⟨⟨FixedBytes.zero 32⟩, 0⟩, [.data [0xaa]], 0xffffffff, []⟩] [⟨0, [.op .pushOne]⟩] 0 false

/-- The bytes of a transaction with a body in place of the script of its one input. -/
def onePushData (body : Bytes) : Bytes :=
  [1, 0, 0, 0, 1] ++ List.replicate 36 0 ++ Varint.lengthPrefixed body ++
    [0xff, 0xff, 0xff, 0xff, 1] ++ List.replicate 8 0 ++ [1, 0x51] ++ List.replicate 4 0

theorem onePush_written : ofBytes (onePushData [1, 0xaa]) false = .ok onePush ∧
    ∃ ins outs, onePush.Written ins outs ∧
      onePushData [1, 0xaa] =
        onePush.layout (ins.map WireScript.body) (outs.map WireScript.body) ∧
      ∃ written, onePush.bytes = .ok written ∧
        (written = onePushData [1, 0xaa] ↔ ∀ ws ∈ ins ++ outs, ws.IsShortest) ∧
        onePush.id = .ok (TxId.ofWire (hash256 written)) := by
  have hread : ofBytes (onePushData [1, 0xaa]) false = .ok onePush := by decide +kernel
  obtain ⟨ins, outs, hwritten, hdata, _, written, hbytes, _, heq, hid⟩ := bytes_of_ofBytes hread
  exact ⟨hread, ins, outs, hwritten, hdata, written, hbytes, heq, hid rfl⟩

/-- A push whose length takes a byte of its own is read and then written without it, so neither the
bytes nor the id are those of the data. -/
theorem onePush_rewritten : ofBytes (onePushData [76, 1, 0xaa]) false = .ok onePush ∧
    onePush.bytes ≠ .ok (onePushData [76, 1, 0xaa]) ∧
    onePush.id ≠ .ok (TxId.ofWire (hash256 (onePushData [76, 1, 0xaa]))) := by
  refine ⟨?_, ?_, ?_⟩
  all_goals decide +kernel

end Transaction

end BitcoinSpend

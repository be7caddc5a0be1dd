import BitcoinSpend.Proofs.Json.RoundTrip
import BitcoinSpend.Proofs.Transaction.Cache
import BitcoinSpend.Proofs.Transaction.RoundTrip

namespace BitcoinSpend

/-- What a script is read back as. -/
def Script.canonical (s : Script) : Script :=
  s.map Command.canonical

theorem Script.bytes_canonical (s : Script) : s.canonical.bytes = s.bytes := by
  rw [bytes, bytes, canonical, body_map_canonical]

def Input.canonical (i : Input) : Input :=
  { i with script := i.script.canonical }

theorem Input.bytes_canonical (i : Input) : i.canonical.bytes = i.bytes := by
  rw [bytes, bytes, bytesWith, bytesWith, canonical, Script.bytes_canonical]

def Output.canonical (o : Output) : Output :=
  { o with script := o.script.canonical }

theorem Output.bytes_canonical (o : Output) : o.canonical.bytes = o.bytes := by
  rw [bytes, bytes, canonical, Script.bytes_canonical]

theorem map_eq_self_iff {α : Type} {f : α → α} {xs : List α} :
    xs.map f = xs ↔ ∀ x ∈ xs, f x = x := by
  simpa using List.map_inj_left (f := f) (g := id) (l := xs)

theorem Script.canonical_eq_self_iff {s : Script} : s.canonical = s ↔ .data [] ∉ s := by
  have hcommand : ∀ c : Command, c.canonical = c ↔ c ≠ .data [] := by
    intro c
    unfold Command.canonical
    split <;> simp_all
  simp only [canonical, map_eq_self_iff, hcommand]
  exact ⟨fun h hmem => h _ hmem rfl, fun h c hc heq => h (heq ▸ hc)⟩

namespace Transaction

variable {tx : Transaction}

/-- What a transaction is read back as. -/
def canonical (tx : Transaction) : Transaction :=
  { tx with inputs := tx.inputs.map Input.canonical, outputs := tx.outputs.map Output.canonical }

theorem inputsAndOutputs_canonical (tx : Transaction) :
    tx.canonical.inputsAndOutputs = tx.inputsAndOutputs := by
  simp only [inputsAndOutputs, canonical, joinBytes_map, Input.bytes_canonical,
    Output.bytes_canonical, List.length_map]

theorem id_canonical (tx : Transaction) : tx.canonical.id = tx.id := by
  simp only [id, hash, legacyBytes, inputsAndOutputs_canonical]
  rfl

theorem Readable.canonical (h : tx.Readable) : tx.canonical.Readable := by
  refine ⟨?_, ?_, ?_, fun hlegacy => ?_⟩
  · exact (List.length_map Input.canonical).trans_lt h.inputs_lt
  · exact (List.length_map Output.canonical).trans_lt h.outputs_lt
  · have hfit := h.witnesses
    unfold WitnessesFit at hfit ⊢
    simp only [Transaction.canonical, List.forall_mem_map]
    exact hfit
  · simpa [Transaction.canonical] using h.inputs_ne hlegacy

theorem layout_canonical (tx : Transaction) (ins outs : List Bytes) :
    tx.canonical.layout ins outs = tx.layout ins outs := by
  have hwitness : tx.inputs.flatMap (fun i => i.canonical.witnessBytes) =
      tx.inputs.flatMap Input.witnessBytes := rfl
  simp only [layout, inputsAndOutputsLayout, witnessLayout, canonical, List.length_map,
    List.zipWith_map_left, List.flatMap_map, hwitness]
  rfl

theorem exists_written_canonical {α : Type} {script : α → Script} {xs : List α}
    {wss : List WireScript} (h : List.Forall₂ (fun x ws => (script x).Written ws) xs wss) :
    ∃ wss', List.Forall₂ (fun x ws => (script x).canonical.Written ws) xs wss' ∧
      wss'.map WireScript.body = wss.map WireScript.shortest := by
  induction h with
  | nil => exact ⟨[], .nil, rfl⟩
  | @cons x ws xs wss hx _ ih =>
    obtain ⟨wss', hwss, hbodies⟩ := ih
    obtain ⟨b, hb, _, hread, _⟩ :=
      Script.body_of_ofBody (Script.ofBody_eq_ok_iff.mpr ⟨ws, rfl, hx.script_eq⟩)
    obtain ⟨ws', rfl, hscript⟩ := Script.ofBody_eq_ok_iff.mp hread
    have hbody : ws'.body = ws.shortest := by
      rw [← hx.script_eq, Script.body_script] at hb
      exact (Except.ok.inj hb).symm
    have hlen : ws'.body.length < UInt64.size := hbody ▸ hx.shortest_length_lt
    exact ⟨ws' :: wss', .cons ⟨hscript, hlen⟩ hwss, by simp [hbody, hbodies]⟩

/-- What was read is written, and that is read as the canonical transaction. -/
theorem exists_bytes_of_ofBytes {data : Bytes} {testnet : Bool}
    (h : ofBytes data testnet = .ok tx) :
    ∃ written, tx.bytes = .ok written ∧ ofBytes written testnet = .ok tx.canonical := by
  obtain ⟨htestnet, hreadable, ins, outs, hwritten, _⟩ := ofBytes_eq_ok_iff.mp h
  obtain ⟨ins', hins, hinBodies⟩ := exists_written_canonical hwritten.inputs
  obtain ⟨outs', houts, houtBodies⟩ := exists_written_canonical hwritten.outputs
  refine ⟨_, hwritten.bytes_eq, ofBytes_eq_ok_iff.mpr ⟨htestnet, ?_, ins', outs', ⟨?_, ?_⟩, ?_⟩⟩
  · exact hreadable.canonical
  · exact List.forall₂_map_left_iff.mpr hins
  · exact List.forall₂_map_left_iff.mpr houts
  · rw [hinBodies, houtBodies, layout_canonical]

theorem canonical_eq_self_iff : tx.canonical = tx ↔ ∀ s ∈ tx.scripts, .data [] ∉ s := by
  have hinput : ∀ i : Input, i.canonical = i ↔ .data [] ∉ i.script := fun i => by
    rw [← Script.canonical_eq_self_iff, Input.canonical]
    exact ⟨congrArg Input.script, fun h => by rw [h]⟩
  have houtput : ∀ o : Output, o.canonical = o ↔ .data [] ∉ o.script := fun o => by
    rw [← Script.canonical_eq_self_iff, Output.canonical]
    exact ⟨congrArg Output.script, fun h => by rw [h]⟩
  simp only [scripts, List.forall_mem_append, List.forall_mem_map, ← hinput, ← houtput,
    ← map_eq_self_iff]
  constructor
  · intro h
    exact ⟨congrArg Transaction.inputs h, congrArg Transaction.outputs h⟩
  · intro h
    rw [canonical, h.1, h.2]

end Transaction

theorem TxId.lowerCase_text (id : TxId) : TxCache.lowerCase id.text = id.text := by
  have hlower := Hex.forall_mem_encode (P := fun c => c.toLower = c) (by decide) id.bytes.bytes
  rw [← String.toList_inj, TxCache.lowerCase, String.toList_map]
  exact map_eq_self_iff.mpr hlower

namespace TxCache

variable {cache loaded : TxCache} {k : TxId}

/-- What a cache is read back as. -/
def canonical (cache : TxCache) : TxCache :=
  ⟨cache.entries.map fun e => (e.1, e.2.canonical)⟩

/-- All that is held was read. -/
def AllRead (cache : TxCache) : Prop :=
  ∀ e ∈ cache.entries, ∃ data, Transaction.ofBytes data false = .ok e.2

/-- What is written for an entry. -/
def fileMember (e : TxId × Transaction) : String × String :=
  (e.1.text, Hex.encode (e.2.bytes.toOption.getD []))

theorem AllRead.ofText_fileMember (h : cache.AllRead) {e : TxId × Transaction}
    (he : e ∈ cache.entries) :
    Transaction.ofText (fileMember e).2 false = .ok e.2.canonical := by
  obtain ⟨data, hdata⟩ := h e he
  obtain ⟨written, hwritten, hread⟩ := Transaction.exists_bytes_of_ofBytes hdata
  rw [fileMember, hwritten, Transaction.ofText_encode]
  exact hread

theorem AllRead.members_eq (h : cache.AllRead) :
    cache.members = .ok ((cache.entries.map fileMember).map fun m => (m.1, .text m.2)) := by
  obtain ⟨entries⟩ := cache
  unfold members
  induction entries with
  | nil => rfl
  | cons e entries ih =>
    obtain ⟨id, tx⟩ := e
    obtain ⟨data, hdata⟩ := h _ List.mem_cons_self
    obtain ⟨written, hwritten, _⟩ := Transaction.exists_bytes_of_ofBytes hdata
    have hrest := ih fun e he => h e (List.mem_cons_of_mem _ he)
    rw [List.mapM_cons, hrest]
    simp [fileMember, hwritten, Except.mapError, bind, Except.bind, pure, Except.pure,
      Except.toOption]

theorem AllRead.ofText_text (h : cache.AllRead) {file : String} (hfile : cache.text = .ok file) :
    ofText file = ofMembers (Json.sortMembers (cache.entries.map fileMember)) := by
  rw [text, h.members_eq] at hfile
  cases hfile
  rw [ofText, Json.readMembers?_pretty]

theorem Valid.nodup_fileMembers (h : cache.Valid) :
    ((cache.entries.map fileMember).map Prod.fst).Nodup := by
  have hkeys := h.ascends.nodup.map fun _ _ => TxId.text_inj
  rwa [List.map_map] at hkeys ⊢

theorem Valid.canonical (h : cache.Valid) : cache.canonical.Valid := by
  refine ⟨List.pairwise_map.mpr h.ascends, List.forall_mem_map.mpr fun e he => ?_⟩
  rw [Transaction.id_canonical]
  exact h.id_eq e he

/-- No member of the file is lost. -/
theorem Valid.mem_sortMembers_iff (h : cache.Valid) {m : String × String} :
    m ∈ Json.sortMembers (cache.entries.map fileMember) ↔
      ∃ e ∈ cache.entries, fileMember e = m := by
  rw [Json.mem_sortMembers_iff, Json.value?_eq_some_iff h.nodup_fileMembers, List.mem_map]

/-- The members under an id are those of the entries with this id. -/
theorem Valid.mem_filter_sortMembers_iff (h : cache.Valid) {m : String × String} :
    m ∈ (Json.sortMembers (cache.entries.map fileMember)).filter
        (fun m => lowerCase m.1 = k.text) ↔
      ∃ tx, (k, tx) ∈ cache.entries ∧ fileMember (k, tx) = m := by
  rw [List.mem_filter, h.mem_sortMembers_iff, decide_eq_true_iff]
  constructor
  · rintro ⟨⟨⟨id, tx⟩, he, rfl⟩, hkey⟩
    rw [fileMember, TxId.lowerCase_text] at hkey
    cases TxId.text_inj hkey
    exact ⟨tx, he, rfl⟩
  · rintro ⟨tx, he, rfl⟩
    exact ⟨⟨_, he, rfl⟩, TxId.lowerCase_text k⟩

theorem AllRead.exists_ofMembers (h : cache.Valid) (hread : cache.AllRead) :
    ∃ loaded, ofMembers (Json.sortMembers (cache.entries.map fileMember)) = .ok loaded := by
  refine exists_ofMembers_iff.mpr fun m hm => ?_
  obtain ⟨e, he, rfl⟩ := h.mem_sortMembers_iff.mp hm
  refine ⟨_, hread.ofText_fileMember he, e.1, ?_, (TxId.lowerCase_text e.1).symm⟩
  rw [Transaction.id_canonical]
  exact h.id_eq e he

theorem AllRead.get?_of_ofMembers (h : cache.Valid) (hread : cache.AllRead)
    (hloaded : ofMembers (Json.sortMembers (cache.entries.map fileMember)) = .ok loaded) :
    loaded.get? k = (cache.get? k).map Transaction.canonical := by
  rw [(TxCache.get?_of_ofMembers hloaded).2]
  cases hlast : ((Json.sortMembers (cache.entries.map fileMember)).filter
      (fun m => lowerCase m.1 = k.text)).getLast? with
  | none =>
    cases hheld : cache.get? k with
    | none => rfl
    | some tx =>
      have hmem := h.mem_filter_sortMembers_iff.mpr ⟨tx, h.get?_eq_some_iff.mp hheld, rfl⟩
      rw [List.getLast?_eq_none_iff.mp hlast] at hmem
      cases hmem
  | some m =>
    obtain ⟨tx, he, rfl⟩ := h.mem_filter_sortMembers_iff.mp (List.mem_of_getLast? hlast)
    rw [h.get?_eq_some_iff.mpr he, Option.bind_some, hread.ofText_fileMember he]
    rfl

theorem get?_canonical : cache.canonical.get? k = (cache.get? k).map Transaction.canonical := by
  rw [get?, get?, canonical, List.find?_map, Option.map_map, Option.map_map]
  rfl

/-- A cache that holds what was read is written to a file, and that is read as the cache of the
canonical transactions. -/
theorem exists_text_of_allRead (h : cache.Valid) (hread : cache.AllRead) :
    ∃ file, cache.text = .ok file ∧ ofText file = .ok cache.canonical := by
  obtain ⟨loaded, hloaded⟩ := hread.exists_ofMembers h
  have hvalid := (get?_of_ofMembers hloaded).1
  have hsame : loaded.entries = cache.canonical.entries := by
    refine hvalid.ascends.eq_of_mem_iff h.canonical.ascends fun e => ?_
    rw [← hvalid.get?_eq_some_iff, ← h.canonical.get?_eq_some_iff,
      hread.get?_of_ofMembers h hloaded, get?_canonical]
  obtain ⟨file, hfile⟩ : ∃ file, cache.text = .ok file := ⟨_, by rw [text, hread.members_eq]; rfl⟩
  refine ⟨file, hfile, ?_⟩
  rw [hread.ofText_text hfile, hloaded]
  exact congrArg Except.ok (congrArg mk hsame)

theorem fetch_canonical (cache : TxCache) (k : TxId) (testnet : Bool) :
    cache.canonical.fetch k testnet = (cache.fetch k testnet).map Transaction.canonical := by
  unfold fetch
  rw [get?_canonical]
  cases cache.get? k <;> rfl

theorem allRead_reached (texts : List String) :
    (reached (texts.map .insertText)).AllRead := by
  induction texts using List.reverseRecOn with
  | nil => simp [AllRead, reached, empty]
  | append_singleton texts text ih =>
    rw [List.map_append, List.map_singleton, reached_append_singleton, Action.perform]
    cases hdone : (Action.insertText text).perform? (reached (texts.map .insertText)) with
    | none => exact ih
    | some stored =>
      obtain ⟨tx, htx, hdone⟩ := Action.perform?_insertText_eq_some_iff.mp hdone
      obtain ⟨id, _, rfl⟩ := Action.perform?_insert_eq_some_iff.mp hdone
      intro e he
      rcases (puts_place id tx _).mem_or he with rfl | he
      · exact Transaction.exists_ofBytes_of_ofText htx
      · exact ih e he

/-- A cache of texts that were inserted is written to a file, and what is loaded from the file has
the same ids. Under each is the transaction with the opcode for the empty push in place of every
push of nothing, which is the one that was held just if none of its scripts has a push of nothing.
-/
theorem loaded_holds_canonical (texts : List String) :
    ∃ file loaded, (reached (texts.map .insertText)).text = .ok file ∧ ofText file = .ok loaded ∧
      loaded.entries.map Prod.fst = (reached (texts.map .insertText)).entries.map Prod.fst ∧
      ∀ k testnet,
        loaded.fetch k testnet =
          ((reached (texts.map .insertText)).fetch k testnet).map Transaction.canonical ∧
        (loaded.fetch k testnet = (reached (texts.map .insertText)).fetch k testnet ↔
          ∀ tx, (reached (texts.map .insertText)).get? k = some tx →
            ∀ s ∈ tx.scripts, .data [] ∉ s) := by
  obtain ⟨file, hfile, hloaded⟩ := exists_text_of_allRead (valid_reached _) (allRead_reached texts)
  refine ⟨file, _, hfile, hloaded, ?_, fun k testnet => ⟨fetch_canonical _ k testnet, ?_⟩⟩
  · rw [canonical, List.map_map]
    rfl
  · rw [fetch_canonical, fetch]
    cases hheld : (reached (texts.map .insertText)).get? k with
    | none => simp [Except.map]
    | some tx =>
      simp only [Except.map, Except.ok.injEq, Option.some.injEq, forall_eq']
      exact Transaction.canonical_eq_self_iff

def emptyPush : Transaction :=
  { Transaction.onePush with
    inputs := Transaction.onePush.inputs.map fun i => { i with script := [.data []] } }

/-- A push of nothing is an opcode in what is loaded. -/
theorem emptyPush_not_loaded :
    ∃ file loaded, (reached [.insertText (Hex.encode (Transaction.onePushData [76, 0]))]).text =
        .ok file ∧ ofText file = .ok loaded ∧
      ∃ k testnet, loaded.fetch k testnet ≠
        (reached [.insertText (Hex.encode (Transaction.onePushData [76, 0]))]).fetch k testnet := by
  have hread : Transaction.ofBytes (Transaction.onePushData [76, 0]) false = .ok emptyPush := by
    decide +kernel
  obtain ⟨id, hid⟩ := Transaction.exists_id_of_ofBytes hread
  have hdone : (Action.insertText (Hex.encode (Transaction.onePushData [76, 0]))).perform? empty =
      some ⟨[(id, emptyPush)]⟩ :=
    Action.perform?_insertText_eq_some_iff.mpr ⟨emptyPush, by rw [Transaction.ofText_encode, hread],
      Action.perform?_insert_eq_some_iff.mpr ⟨id, hid, rfl⟩⟩
  have hreached : reached [.insertText (Hex.encode (Transaction.onePushData [76, 0]))] =
      ⟨[(id, emptyPush)]⟩ := by
    rw [reached, List.foldl_cons, List.foldl_nil, Action.perform, hdone]
    rfl
  obtain ⟨file, hfile, hloaded⟩ := exists_text_of_allRead (valid_reached _)
    (allRead_reached [Hex.encode (Transaction.onePushData [76, 0])])
  refine ⟨file, _, hfile, hloaded, id, false, ?_⟩
  rw [fetch_canonical, List.map_singleton, hreached, fetch]
  have hheld : get? ⟨[(id, emptyPush)]⟩ id = some emptyPush := by simp [get?]
  rw [hheld]
  simp only [Except.map, ne_eq, Except.ok.injEq]
  decide +kernel

end TxCache

end BitcoinSpend

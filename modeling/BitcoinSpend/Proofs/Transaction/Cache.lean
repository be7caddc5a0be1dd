import BitcoinSpend.Proofs.Json.Members
import BitcoinSpend.Proofs.Machine.Step
import BitcoinSpend.Proofs.Transaction.Canonical
import BitcoinSpend.Transaction.Cache

namespace BitcoinSpend

namespace TxId

theorem text_inj {a b : TxId} (h : a.text = b.text) : a = b := by
  have hbytes : a.bytes = b.bytes := FixedBytes.ext (Hex.encode_inj h)
  cases a
  cases b
  exact congrArg mk hbytes

/-- The order of entries. -/
def Precedes (a b : TxId) : Prop :=
  a.bytes.bytes < b.bytes.bytes

instance : IsTrans TxId Precedes :=
  ⟨fun _ _ _ => List.lt_trans⟩

instance : Std.Irrefl Precedes :=
  ⟨fun _ => List.lt_irrefl _⟩

end TxId

theorem Except.toOption_eq_some_iff {ε α : Type} {r : Except ε α} {a : α} :
    r.toOption = some a ↔ r = .ok a := by
  cases r <;> simp [Except.toOption]

namespace TxCache

variable {cache stored : TxCache} {id k : TxId} {tx : Transaction} {key text : String}

theorem puts_place (id : TxId) (tx : Transaction) (entries : List (TxId × Transaction)) :
    Puts TxId.Precedes id tx entries (place id tx entries) := by
  induction entries with
  | nil => exact .last
  | cons e entries ih =>
    obtain ⟨i, t⟩ := e
    unfold place
    split
    next heq =>
      subst heq
      exact .replace
    next hne =>
      split
      next hlt => exact .before hlt
      next hge =>
        refine .behind ?_ ih
        by_contra hle
        exact hne (congrArg TxId.mk (FixedBytes.ext (List.le_antisymm hle hge)))

/-- The ids ascend, and each is that of its transaction. -/
structure Valid (cache : TxCache) : Prop where
  ascends : Ascends TxId.Precedes cache.entries
  id_eq : ∀ e ∈ cache.entries, e.2.id = .ok e.1

theorem valid_empty : empty.Valid :=
  ⟨.nil, by simp [empty]⟩

theorem Valid.place (h : cache.Valid) (hid : tx.id = .ok id) :
    Valid ⟨TxCache.place id tx cache.entries⟩ := by
  refine ⟨(puts_place id tx _).ascends h.ascends, fun e he => ?_⟩
  rcases (puts_place id tx _).mem_or he with rfl | he
  · exact hid
  · exact h.id_eq e he

theorem Valid.get?_eq_some_iff (h : cache.Valid) :
    cache.get? k = some tx ↔ (k, tx) ∈ cache.entries :=
  find?_key_eq_some_iff h.ascends.nodup

theorem Valid.get?_place (h : cache.Valid) (hid : tx.id = .ok id) :
    get? ⟨TxCache.place id tx cache.entries⟩ k = if id = k then some tx else cache.get? k := by
  ext t
  rw [(h.place hid).get?_eq_some_iff, (puts_place id tx _).mem_iff h.ascends,
    ← h.get?_eq_some_iff]
  split
  · simp [eq_comm]
  · rfl

theorem insert_eq_ok_iff : cache.insert tx = .ok (id, stored) ↔
    tx.id = .ok id ∧ ⟨place id tx cache.entries⟩ = stored := by
  simp only [insert, Except.bind_eq_ok_iff, mapError_eq_ok_iff, Except.pure_eq_ok_iff,
    Prod.mk.injEq]
  constructor
  · intro h
    obtain ⟨_, hid, rfl, hstored⟩ := h
    exact ⟨hid, hstored⟩
  · intro h
    exact ⟨id, h.1, rfl, h.2⟩

theorem insertText_eq_ok_iff : cache.insertText text = .ok (id, stored) ↔
    ∃ tx, Transaction.ofText text false = .ok tx ∧ tx.id = .ok id ∧
      ⟨place id tx cache.entries⟩ = stored := by
  simp only [insertText, Except.bind_eq_ok_iff, insert_eq_ok_iff]

/-- A text reads as a transaction, and a key is its id, with letters in either case. -/
def Names (key text : String) (tx : Transaction) : Prop :=
  Transaction.ofText text false = .ok tx ∧ ∃ id, tx.id = .ok id ∧ id.text = lowerCase key

theorem insertChecked_eq_ok_iff : cache.insertChecked key text = .ok stored ↔
    ∃ tx id, Transaction.ofText text false = .ok tx ∧ tx.id = .ok id ∧ id.text = lowerCase key ∧
      ⟨place id tx cache.entries⟩ = stored := by
  simp only [insertChecked, Except.bind_eq_ok_iff, mapError_eq_ok_iff, Prod.exists,
    insertText_eq_ok_iff]
  constructor
  · intro h
    obtain ⟨id, after, ⟨tx, htx, hid, hafter⟩, hif⟩ := h
    split at hif
    next hkey => exact ⟨tx, id, htx, hid, hkey, hafter.trans (Except.ok.inj hif)⟩
    next => cases hif
  · intro h
    obtain ⟨tx, id, htx, hid, hkey, hstored⟩ := h
    refine ⟨id, stored, ⟨tx, htx, hid, hstored⟩, ?_⟩
    rw [if_pos hkey]
    rfl

theorem exists_insertChecked_iff :
    (∃ stored, cache.insertChecked key text = .ok stored) ↔ ∃ tx, Names key text tx := by
  simp only [insertChecked_eq_ok_iff, Names]
  constructor
  · intro h
    obtain ⟨_, tx, id, htx, hid, hkey, _⟩ := h
    exact ⟨tx, htx, id, hid, hkey⟩
  · intro h
    obtain ⟨tx, htx, id, hid, hkey⟩ := h
    exact ⟨_, tx, id, htx, hid, hkey, rfl⟩

theorem ofMembers_append_singleton (ms : List (String × String)) (m : String × String) :
    ofMembers (ms ++ [m]) = ofMembers ms >>= fun cache => cache.insertChecked m.1 m.2 := by
  simp only [ofMembers, List.foldlM_append, List.foldlM_cons, List.foldlM_nil, bind_pure]

/-- A file is taken if each of its members has the id of its transaction as its key. -/
theorem exists_ofMembers_iff {ms : List (String × String)} :
    (∃ cache, ofMembers ms = .ok cache) ↔ ∀ m ∈ ms, ∃ tx, Names m.1 m.2 tx := by
  induction ms using List.reverseRecOn with
  | nil => simp [ofMembers, pure, Except.pure]
  | append_singleton ms m ih =>
    simp only [ofMembers_append_singleton, Except.bind_eq_ok_iff, List.forall_mem_append, ← ih,
      List.forall_mem_singleton]
    constructor
    · intro h
      obtain ⟨after, cache, hcache, hafter⟩ := h
      exact ⟨⟨cache, hcache⟩, exists_insertChecked_iff.mp ⟨after, hafter⟩⟩
    · intro h
      obtain ⟨⟨cache, hcache⟩, hlast⟩ := h
      obtain ⟨after, hafter⟩ := exists_insertChecked_iff.mpr hlast
      exact ⟨after, cache, hcache, hafter⟩

/-- Of the members with an id as their key, the last one gives what is held under it. -/
theorem get?_of_ofMembers {ms : List (String × String)} (h : ofMembers ms = .ok cache) :
    cache.Valid ∧ ∀ k, cache.get? k = ((ms.filter fun m => lowerCase m.1 = k.text).getLast?.bind
      fun m => (Transaction.ofText m.2 false).toOption) := by
  induction ms using List.reverseRecOn generalizing cache with
  | nil =>
    cases h
    exact ⟨valid_empty, fun k => rfl⟩
  | append_singleton ms m ih =>
    rw [ofMembers_append_singleton, Except.bind_eq_ok_iff] at h
    obtain ⟨before, hbefore, h⟩ := h
    obtain ⟨tx, id, htx, hid, hkey, rfl⟩ := insertChecked_eq_ok_iff.mp h
    obtain ⟨hvalid, hget⟩ := ih hbefore
    refine ⟨hvalid.place hid, fun k => ?_⟩
    rw [hvalid.get?_place hid, hget, List.filter_append]
    have hiff : lowerCase m.1 = k.text ↔ id = k := by
      rw [← hkey]
      exact ⟨TxId.text_inj, congrArg TxId.text⟩
    by_cases hk : id = k
    · simp [hk, hiff, htx, Except.toOption]
    · simp [hk, hiff]

/-- What is done to a cache. A file that is loaded has a text if it can be read. -/
inductive Action where
  | insert (tx : Transaction)
  | insertText (text : String)
  | load (file : Option String)

namespace Action

/-- The cache that an action leaves, unless it fails. -/
def perform? (cache : TxCache) : Action → Option TxCache
  | insert tx => (cache.insert tx).toOption.map Prod.snd
  | insertText text => (cache.insertText text).toOption.map Prod.snd
  | load file => file.bind fun text => (ofText text).toOption

/-- An action that fails leaves the cache as it was. -/
def perform (cache : TxCache) (action : Action) : TxCache :=
  (action.perform? cache).getD cache

/-- The action stores nothing: a transaction cannot be written, a text does not read as one, or a
file is no object of texts or does not, for one of the members that count, hold a transaction under
its id. -/
def Fails : Action → Prop
  | insert tx => ¬∃ id, tx.id = .ok id
  | insertText text => ¬∃ tx, Transaction.ofText text false = .ok tx
  | load file => ¬∃ ms, file.bind Json.readMembers? = some ms ∧
    ∀ key text, Json.value? ms key = some text → ∃ tx, Names key text tx

/-- What is held under an id when the action has not failed. Of the members of a file whose keys are
one id, the last in the order of keys is held. -/
def held (before : TxId → Option Transaction) (k : TxId) : Action → Option Transaction
  | insert tx => if tx.id = .ok k then some tx else before k
  | insertText text =>
    match Transaction.ofText text false with
    | .ok tx => if tx.id = .ok k then some tx else before k
    | .error _ => before k
  | load file =>
    let ms := Json.sortMembers ((file.bind Json.readMembers?).getD [])
    (ms.filter fun m => lowerCase m.1 = k.text).getLast?.bind fun m =>
      (Transaction.ofText m.2 false).toOption

theorem perform?_insert_eq_some_iff : (insert tx).perform? cache = some stored ↔
    ∃ id, tx.id = .ok id ∧ ⟨place id tx cache.entries⟩ = stored := by
  simp only [perform?, Option.map_eq_some_iff, Except.toOption_eq_some_iff, Prod.exists,
    insert_eq_ok_iff, exists_eq_right]

theorem perform?_insertText_eq_some_iff : (insertText text).perform? cache = some stored ↔
    ∃ tx, Transaction.ofText text false = .ok tx ∧ (insert tx).perform? cache = some stored := by
  simp only [perform?_insert_eq_some_iff]
  simp only [perform?, Option.map_eq_some_iff, Except.toOption_eq_some_iff, Prod.exists,
    insertText_eq_ok_iff, exists_eq_right]
  constructor
  · intro h
    obtain ⟨id, tx, htx, hid, hstored⟩ := h
    exact ⟨tx, htx, id, hid, hstored⟩
  · intro h
    obtain ⟨tx, htx, id, hid, hstored⟩ := h
    exact ⟨id, tx, htx, hid, hstored⟩

theorem perform?_load_eq_some_iff {file : Option String} :
    (load file).perform? cache = some stored ↔ ∃ ms, file.bind Json.readMembers? = some ms ∧
      ofMembers (Json.sortMembers ms) = .ok stored := by
  cases file with
  | none => simp [perform?]
  | some text =>
    simp only [perform?, ofText, Option.bind_some, Except.toOption_eq_some_iff]
    cases Json.readMembers? text <;> simp

theorem exists_perform?_iff {action : Action} :
    (∃ stored, action.perform? cache = some stored) ↔ ¬action.Fails := by
  cases action with
  | insert tx => simp [perform?_insert_eq_some_iff, Fails]
  | insertText text =>
    simp only [perform?_insertText_eq_some_iff, perform?_insert_eq_some_iff, Fails, not_not]
    constructor
    · intro h
      obtain ⟨_, tx, htx, _⟩ := h
      exact ⟨tx, htx⟩
    · intro h
      obtain ⟨tx, htx⟩ := h
      obtain ⟨_, hdata⟩ := Transaction.exists_ofBytes_of_ofText htx
      obtain ⟨id, hid⟩ := Transaction.exists_id_of_ofBytes hdata
      exact ⟨_, tx, htx, id, hid, rfl⟩
  | load file =>
    simp only [perform?_load_eq_some_iff, Fails, not_not, ← Json.mem_sortMembers_iff]
    rw [exists_comm]
    refine exists_congr fun ms => ?_
    rw [exists_and_left, exists_ofMembers_iff, Prod.forall]

theorem held_of_perform? (h : cache.Valid) {action : Action}
    (haction : action.perform? cache = some stored) :
    stored.Valid ∧ ∀ k, stored.get? k = action.held cache.get? k := by
  have hinsert : ∀ tx, (insert tx).perform? cache = some stored →
      stored.Valid ∧ ∀ k, stored.get? k = (insert tx).held cache.get? k := by
    intro tx htx
    obtain ⟨id, hid, rfl⟩ := perform?_insert_eq_some_iff.mp htx
    refine ⟨h.place hid, fun k => ?_⟩
    simp [h.get?_place hid, held, hid]
  cases action with
  | insert tx => exact hinsert tx haction
  | insertText text =>
    obtain ⟨tx, htx, hstored⟩ := perform?_insertText_eq_some_iff.mp haction
    simpa only [held, htx] using hinsert tx hstored
  | load file =>
    obtain ⟨ms, hms, hstored⟩ := perform?_load_eq_some_iff.mp haction
    simpa only [held, hms, Option.getD_some] using get?_of_ofMembers hstored

end Action

/-- The cache after some actions, one behind the other. -/
def reached (actions : List Action) : TxCache :=
  actions.foldl Action.perform empty

theorem reached_append_singleton (actions : List Action) (action : Action) :
    reached (actions ++ [action]) = action.perform (reached actions) := by
  simp [reached]

theorem valid_perform (h : cache.Valid) (action : Action) : (action.perform cache).Valid := by
  unfold Action.perform
  cases haction : action.perform? cache with
  | none => exact h
  | some stored => exact (Action.held_of_perform? h haction).1

theorem valid_reached (actions : List Action) : (reached actions).Valid := by
  induction actions using List.reverseRecOn with
  | nil => exact valid_empty
  | append_singleton actions action ih =>
    rw [reached_append_singleton]
    exact valid_perform ih action

/-- Whatever has been done to an empty cache, what is held under an id is a transaction with that
id, and fetching answers it as one of the network that is asked for; no other id is found. An action
that fails, as one does with any member that counts and does not hold a transaction under its id,
leaves all as it was, and any other leaves what it stored. -/
theorem reached_holds_under_ids (actions : List Action) :
    (∀ k tx, (reached actions).get? k = some tx ↔ (k, tx) ∈ (reached actions).entries) ∧
    (∀ k tx, (reached actions).get? k = some tx → tx.id = .ok k ∧
      ∀ testnet, (reached actions).fetch k testnet = .ok { tx with testnet }) ∧
    (∀ k, (reached actions).get? k = none →
      ∀ testnet, (reached actions).fetch k testnet = .error (.notFound k)) ∧
    ∀ action : Action,
      (action.perform? (reached actions) = none ↔ action.Fails) ∧
      (action.Fails → reached (actions ++ [action]) = reached actions) ∧
      (¬action.Fails → ∀ k,
        (reached (actions ++ [action])).get? k = action.held (reached actions).get? k) := by
  have hvalid := valid_reached actions
  have hnone : ∀ action : Action, action.perform? (reached actions) = none ↔ action.Fails := by
    intro action
    rw [Option.eq_none_iff_forall_ne_some, ← not_exists, Action.exists_perform?_iff, not_not]
  refine ⟨fun k tx => hvalid.get?_eq_some_iff, fun k tx h => ⟨?_, fun testnet => ?_⟩,
    fun k h testnet => ?_, fun action => ⟨hnone action, fun hfails => ?_, fun hdone k => ?_⟩⟩
  · exact hvalid.id_eq _ (hvalid.get?_eq_some_iff.mp h)
  · simp only [fetch, h]
  · simp only [fetch, h]
  · rw [reached_append_singleton, Action.perform, (hnone action).mpr hfails]
    rfl
  · obtain ⟨stored, hstored⟩ := Action.exists_perform?_iff.mpr hdone
    rw [reached_append_singleton, Action.perform, hstored]
    exact (Action.held_of_perform? hvalid hstored).2 k

end TxCache

end BitcoinSpend

import BitcoinSpend.Proofs.Machine.Bounds
import BitcoinSpend.Proofs.Machine.Expansion

namespace BitcoinSpend

/-- The elements that are left where a run ends. -/
def Ending.stack : Ending → Stack
  | .completed stack => stack
  | .failed _ stack => stack
  | .malformed _ => []

theorem Ending.Bounded.of_mem_stack {P : Bytes → Prop} {ending : Ending} (h : ending.Bounded P)
    {x : Bytes} (hx : x ∈ ending.stack) : P x := by
  cases h with
  | completed hstack | failed hstack _ => exact hstack.all x hx
  | overfull _ hall => exact hall x hx
  | malformed => simp [stack] at hx

theorem State.Chain.mem_visited_of_lt {ctx : Context} {s t : State} {path : List State} {n : Nat}
    (h : Chain ctx s path t) (hn : path.length < n) : t ∈ s.visited ctx n := by
  induction h generalizing n with
  | refl s =>
    obtain ⟨n, rfl⟩ := Nat.exists_eq_add_of_lt hn
    simp only [State.visited]
    split <;> simp
  | step hstep _ ih =>
    obtain ⟨n, rfl⟩ := Nat.exists_eq_add_of_lt hn
    simp only [State.visited, hstep]
    exact List.mem_cons_of_mem _ (ih (by simp only [List.length_cons] at hn ⊢; omega))

/-- The script was read, alone or behind its length. -/
inductive Script.IsRead (s : Script) : Prop
  | body {body : Bytes} : ofBody body = .ok s → IsRead s
  | framed {data : Bytes} {n : Nat} : ofBytes data = .ok (s, n) → IsRead s

theorem Script.IsRead.length_le {s : Script} (h : s.IsRead) {x : Bytes} (hx : .data x ∈ s) :
    x.length ≤ maxElementSize := by
  cases h with
  | body h => exact length_le_of_ofBody h hx
  | framed h => exact length_le_of_ofBytes h hx

theorem Script.isRead_payToWitnessKeyHash (h : FixedBytes 20) :
    IsRead (payToWitnessKeyHash h) := by
  have hcanonical : ∀ c ∈ payToWitnessKeyHash h, c.IsCanonical := by
    simp [payToWitnessKeyHash, Command.IsCanonical, h.length_eq, maxElementSize]
    decide
  obtain ⟨b, _, hread⟩ := ofBody_body_of_isCanonical hcanonical
  exact .body hread

namespace Context

variable {ctx : Context}

/-- An element is on one of the stacks where a step of the run of a script starts, or on the stack
that is left where the run ends. -/
def Shows (ctx : Context) (s : Script) (x : Bytes) : Prop :=
  ∃ n, (∃ t ∈ (State.ofScript s).visited ctx n, x ∈ t.stack ++ t.alt) ∨
    ∃ ending, (State.ofScript s).run ctx n = some ending ∧ x ∈ ending.stack

theorem Shows.of_all {s : Script} {x : Bytes} {P : Bytes → Prop} (hP : ElementBound P)
    (hw : ∀ item ∈ ctx.witness, P item) (hs : s.IsRead) (h : ctx.Shows s x) : P x := by
  have hstart : (State.ofScript s).Bounded P maxStackSize :=
    State.bounded_ofScript fun x hx => hP.of_length_le x (hs.length_le hx)
  obtain ⟨n, ⟨t, ht, hx⟩ | ⟨ending, hrun, hx⟩⟩ := h
  · have hbounded := State.bounded_of_mem_visited hP hw hstart ht
    rcases List.mem_append.mp hx with hx | hx
    · exact hbounded.stack x hx
    · exact hbounded.alt x hx
  · exact (State.bounded_of_run hP hw hstart hrun).of_mem_stack hx

/-- A program of a key hash puts all items on the stack, whatever the hash is. -/
theorem shows_item (h : FixedBytes 20) (hsize : ctx.witness.length ≤ maxStackSize)
    (hplain : leadingPrograms ctx.witness = []) {item : Bytes} (hitem : item ∈ ctx.witness) :
    ctx.Shows (Script.payToWitnessKeyHash h) item := by
  have hq : (Script.payToKeyHash h).scriptHash? = none :=
    Script.scriptHash?_cons_eq_none (by decide) _
  have hexpands : Expands ctx h.bytes (ctx.witness.map .data ++ Script.payToKeyHash h) :=
    .keyHash h
  obtain ⟨path, _, hchain⟩ :=
    @State.exists_chain_program ctx _ _ [] [] hexpands rfl (by decide)
  obtain ⟨path', _, hchain'⟩ :=
    @State.exists_chain_pushes ctx ctx.witness _ [] [] hq (fun _ => hplain) hsize
  refine ⟨_, .inl ⟨_, (hchain.trans hchain').mem_visited_of_lt (Nat.lt_succ_self _), ?_⟩⟩
  simpa using hitem

/-- Every element that the run of a script that was read shows is at most 520 bytes long, or it is
an item of the witness. So the limit holds if the items keep it; and where they are no more than the
stacks may hold and do not start with a program, it holds of all scripts only then. -/
theorem elements_within_limit (hitems : ∀ item ∈ ctx.witness, item.length < UInt64.size) :
    (∀ s x, s.IsRead → ctx.Shows s x → x.length ≤ maxElementSize ∨ x ∈ ctx.witness) ∧
    ((∀ item ∈ ctx.witness, item.length ≤ maxElementSize) →
      ∀ s x, s.IsRead → ctx.Shows s x → x.length ≤ maxElementSize) ∧
    (ctx.witness.length ≤ maxStackSize → leadingPrograms ctx.witness = [] →
      (∀ s x, s.IsRead → ctx.Shows s x → x.length ≤ maxElementSize) →
        ∀ item ∈ ctx.witness, item.length ≤ maxElementSize) := by
  have hmax : maxElementSize < UInt64.size := by decide
  have hbound : ElementBound fun x => x.length ≤ maxElementSize ∨ x ∈ ctx.witness := by
    refine ⟨fun x hx => .inl hx, fun x hx => .inl ?_⟩
    -- The size of an element is written in a word, so it is short itself.
    have hword : Number.InWord x.length := by
      show x.length < UInt64.size
      rcases hx with hx | hx
      · omega
      · exact hitems x hx
    exact Nat.le_trans hword.length_encode_le (by decide)
  have hall : ∀ s x, s.IsRead → ctx.Shows s x → x.length ≤ maxElementSize ∨ x ∈ ctx.witness :=
    fun s x hs h => h.of_all hbound (fun _ hitem => .inr hitem) hs
  refine ⟨hall, fun hshort s x hs h => (hall s x hs h).elim id (hshort x), ?_⟩
  intro hsize hplain hlimit item hitem
  exact hlimit _ item (Script.isRead_payToWitnessKeyHash (.zero 20))
    (shows_item _ hsize hplain hitem)

/-- As long as an element may be. -/
def fullItem : Bytes :=
  List.replicate maxElementSize 0xaa

def longItem : Bytes :=
  0xaa :: fullItem

/-- The program of an empty script, which leaves what the witness brings. -/
def emptyProgram : Bytes :=
  0 :: 32 :: (Sha256.digest []).bytes

theorem limit_kept_by_fullItem :
    (∀ s x, s.IsRead → (bare [fullItem]).Shows s x → x.length ≤ maxElementSize) ∧
      ¬∀ s x, s.IsRead → (bare [longItem]).Shows s x → x.length ≤ maxElementSize := by
  have hfull : ∀ item ∈ (bare [fullItem]).witness, item.length ≤ maxElementSize := by
    decide +kernel
  have hlong : ∀ item ∈ (bare [longItem]).witness, item.length < UInt64.size := by decide +kernel
  have hmax : maxElementSize < UInt64.size := by decide
  obtain ⟨_, hkept, _⟩ := elements_within_limit
    (fun item hitem => Nat.lt_of_le_of_lt (hfull item hitem) hmax)
  obtain ⟨_, _, honly⟩ := elements_within_limit hlong
  refine ⟨hkept hfull, fun h => ?_⟩
  exact absurd (honly (by decide) rfl h) (by decide +kernel)

/-- An item of 521 bytes is pushed for a script that was read, and is all that its run leaves. -/
theorem longItem_pushed : ∃ s, Script.ofBody emptyProgram = .ok s ∧
    (bare [longItem, []]).execute s = some (.completed [longItem]) ∧
    ⟨[], [longItem], []⟩ ∈ (bare [longItem, []]).visited s ∧ longItem.length = maxElementSize + 1 :=
  ⟨Script.payToWitnessScriptHash (Sha256.digest []), by decide +kernel⟩

end Context

end BitcoinSpend

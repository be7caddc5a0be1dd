import BitcoinSpend.Bytes.Cursor
import BitcoinSpend.Proofs.Bytes.Reading

namespace BitcoinSpend

namespace Cursor

variable {α β : Type} {c c' : Cursor}

/-- A parser at the position of a cursor. One that fails leaves the cursor where it was. -/
def ofParser (p : Parser CodecError α) : CursorM α := fun c =>
  match p ⟨c.position, c.rest⟩ with
  | .ok (a, r) => .ok a { c with position := r.position }
  | .error e => .error e c

theorem ofParser_of_ok {p : Parser CodecError α} {a : α} {r : Reader}
    (h : p ⟨c.position, c.rest⟩ = .ok (a, r)) :
    ofParser p c = .ok a { c with position := r.position } := by
  simp only [ofParser, h]

theorem ofParser_of_error {p : Parser CodecError α} {e : CodecError}
    (h : p ⟨c.position, c.rest⟩ = .error e) : ofParser p c = .error e c := by
  simp only [ofParser, h]

theorem map_ofParser (f : α → β) (p : Parser CodecError α) :
    f <$> ofParser p = ofParser (f <$> p) := by
  funext c
  show EStateM.map f (ofParser p) c = ofParser (StateT.map f p) c
  simp only [EStateM.map, StateT.map, ofParser]
  cases p ⟨c.position, c.rest⟩ <;> rfl

theorem bytes_eq_ofParser (n : Nat) : bytes n = ofParser (Reader.bytes n) := by
  funext c
  unfold bytes
  split
  next h =>
    have hread := Reader.bytes_of_lt (r := ⟨c.position, c.rest⟩) (by simpa using h)
    rw [ofParser_of_error hread, length_rest]
  next h =>
    have hlen : (c.rest.take n).length = n := by simp; omega
    have hread := (Reader.reads_bytes n ⟨c.position, c.rest⟩ (c.rest.take n)
      ⟨c.position + n, c.rest.drop n⟩).mpr ⟨_, ⟨rfl, hlen⟩, by simp, by rw [hlen]⟩
    rw [ofParser_of_ok hread, skip]

theorem fixed_eq_ofParser (n : Nat) : fixed n = ofParser (Reader.fixed n) := by
  funext c
  unfold fixed
  split
  next h =>
    have hread := Reader.fixed_of_lt (r := ⟨c.position, c.rest⟩) (by simpa using h)
    rw [ofParser_of_error hread, length_rest]
  next h =>
    have hlen : (c.rest.take n).length = n := by simp; omega
    have hread := (Reader.reads_fixed n ⟨c.position, c.rest⟩ ⟨c.rest.take n, hlen⟩
      ⟨c.position + n, c.rest.drop n⟩).mpr ⟨_, rfl, by simp, by rw [hlen]⟩
    rw [ofParser_of_ok hread, skip]

theorem word_eq_ofParser (width : Nat) (make : Nat → α) :
    word width make = ofParser (make <$> Reader.nat width) := by
  have hword : word width make = (make ∘ Bytes.toNatLE) <$> bytes width := rfl
  have hnat : Reader.nat width = Bytes.toNatLE <$> Reader.bytes width := rfl
  rw [hword, hnat, bytes_eq_ofParser, map_ofParser, Functor.map_map]
  rfl

theorem varint_eq_ofParser : varint = ofParser Varint.read := by
  funext c
  simp only [varint, ofParser]
  cases Varint.read ⟨c.position, c.rest⟩ <;> rfl

theorem ofParser_eq_ok_iff {p : Parser CodecError α} {Text : Bytes → α → Prop} (hp : p.Reads Text)
    {a : α} : ofParser p c = .ok a c' ↔
      ∃ bs, Text bs a ∧ bs <+: c.rest ∧ c' = c.skip bs.length := by
  constructor
  · intro h
    cases hread : p ⟨c.position, c.rest⟩ with
    | error e =>
      rw [ofParser_of_error hread] at h
      cases h
    | ok x =>
      rw [ofParser_of_ok (a := x.1) (r := x.2) hread] at h
      cases h
      obtain ⟨bs, hbs, hrest, hposition⟩ := (hp _ _ _).mp hread
      exact ⟨bs, hbs, ⟨x.2.rest, hrest.symm⟩, by rw [hposition, skip]⟩
  · intro h
    obtain ⟨bs, hbs, ⟨more, hmore⟩, rfl⟩ := h
    exact ofParser_of_ok ((hp _ _ ⟨c.position + bs.length, more⟩).mpr ⟨bs, hbs, hmore.symm, rfl⟩)

namespace Answer

/-- The bytes that an answer is read from. Looking ahead takes none. -/
def text : Answer → Bytes
  | uint8 b => [b]
  | uint16 w => Bytes.ofNatLE 2 w.toNat
  | uint32 w => Bytes.ofUInt32 w
  | int32 i => Bytes.ofInt32 i
  | int64 i => Bytes.ofInt64 i
  | varint n => Varint.encode n
  | bytes bs => bs
  | ahead _ => []

end Answer

namespace Call

/-- The answers that a read may give. -/
def Gives : Call → Answer → Prop
  | uint8, a => ∃ b, .uint8 b = a
  | uint16, a => ∃ w, .uint16 w = a
  | uint32, a => ∃ w, .uint32 w = a
  | int32, a => ∃ i, .int32 i = a
  | int64, a => ∃ i, .int64 i = a
  | varint, a => ∃ n, n < UInt64.size ∧ .varint n = a
  | bytes n, a => ∃ bs, bs.length = n ∧ .bytes bs = a
  | fixed n, a => ∃ bs, bs.length = n ∧ .bytes bs = a
  | peek _, _ => False

variable {call : Call} {a : Answer}

theorem run_peek {offset : Nat} (h : c.position + offset < UInt64.size) :
    (peek offset).run c = .ok (.ahead c.data[c.position + offset]?) c := by
  have hrun : (peek offset).run c =
      .ok (.ahead c.data[(c.position + offset) % UInt64.size]?) c := rfl
  rwa [Nat.mod_eq_of_lt h] at hrun

theorem eq_of_run_peek {offset : Nat} (h : (peek offset).run c = .ok a c') :
    a.text = [] ∧ c' = c := by
  cases h
  exact ⟨rfl, rfl⟩

theorem reads_answer {p : Parser CodecError α} {P : α → Prop} {f : α → Answer}
    (hp : p.Reads fun bs x => P x ∧ bs = (f x).text) :
    (f <$> p).Reads fun bs a => (∃ x, P x ∧ f x = a) ∧ bs = a.text := by
  refine Parser.Reads.congr hp.map fun bs a => ?_
  constructor
  · rintro ⟨x, ⟨hx, rfl⟩, rfl⟩
    exact ⟨⟨x, hx, rfl⟩, rfl⟩
  · rintro ⟨⟨x, hx, rfl⟩, rfl⟩
    exact ⟨x, ⟨hx, rfl⟩, rfl⟩

theorem reads_any_answer {p : Parser CodecError α} {f : α → Answer}
    (hp : p.Reads fun bs x => bs = (f x).text) :
    (f <$> p).Reads fun bs a => (∃ x, f x = a) ∧ bs = a.text := by
  have htrue := reads_answer (hp.congr fun _ _ => iff_of_eq (true_and _).symm)
  simpa only [true_and] using htrue

/-- A read does what a parser does that takes just what the answer is written as. -/
theorem exists_reading (hread : ∀ offset, call ≠ .peek offset) :
    ∃ p : Parser CodecError Answer,
      call.run = ofParser p ∧ p.Reads fun bs a => call.Gives a ∧ bs = a.text := by
  have hword : ∀ {α : Type} (f : α → Answer) (width : Nat) (make : Nat → α),
      f <$> word width make = ofParser (f <$> make <$> Reader.nat width) := fun f width make => by
    rw [word_eq_ofParser, map_ofParser]
  cases call with
  | uint8 => exact ⟨_, hword _ _ _, reads_any_answer Reader.reads_uint8⟩
  | uint16 => exact ⟨_, hword _ _ _, reads_any_answer Reader.reads_uint16⟩
  | uint32 => exact ⟨_, hword _ _ _, reads_any_answer Reader.reads_uint32⟩
  | int32 => exact ⟨_, hword _ _ _, reads_any_answer Reader.reads_int32⟩
  | int64 => exact ⟨_, hword _ _ _, reads_any_answer Reader.reads_int64⟩
  | varint =>
    refine ⟨_, ?_, reads_answer Varint.reads_read⟩
    rw [run, varint_eq_ofParser, map_ofParser]
  | bytes n =>
    refine ⟨_, ?_, reads_answer ((Reader.reads_bytes n).congr fun _ _ => and_comm)⟩
    rw [run, bytes_eq_ofParser, map_ofParser]
  | fixed n =>
    have hbytes :=
      reads_any_answer (f := fun b : FixedBytes n => .bytes b.bytes) (Reader.reads_fixed n)
    refine ⟨_, ?_, hbytes.congr fun bs a => and_congr_left fun _ => ?_⟩
    · rw [run, fixed_eq_ofParser, map_ofParser]
    · exact ⟨fun ⟨b, h⟩ => ⟨b.bytes, b.length_eq, h⟩, fun ⟨bs, hlen, h⟩ => ⟨⟨bs, hlen⟩, h⟩⟩
  | peek offset => exact absurd rfl (hread offset)

theorem eq_of_run_eq_error {e : CodecError} (h : call.run c = .error e c') : c' = c := by
  by_cases hpeek : ∃ offset, call = .peek offset
  · obtain ⟨offset, rfl⟩ := hpeek
    cases h
  · obtain ⟨p, hrun, -⟩ := exists_reading (not_exists.mp hpeek)
    rw [hrun, ofParser] at h
    split at h <;> cases h
    rfl

/-- A call that succeeds moves the cursor over the bytes of its answer. -/
theorem of_run_eq_ok (h : call.run c = .ok a c') :
    a.text <+: c.rest ∧ c' = c.skip a.text.length := by
  by_cases hpeek : ∃ offset, call = .peek offset
  · obtain ⟨offset, rfl⟩ := hpeek
    obtain ⟨htext, rfl⟩ := eq_of_run_peek h
    rw [htext]
    exact ⟨List.nil_prefix, rfl⟩
  · obtain ⟨p, hrun, hreads⟩ := exists_reading (not_exists.mp hpeek)
    rw [hrun, ofParser_eq_ok_iff hreads] at h
    obtain ⟨_, ⟨_, rfl⟩, hrest, hc'⟩ := h
    exact ⟨hrest, hc'⟩

theorem exists_run_iff (hread : ∀ offset, call ≠ .peek offset) :
    (∃ c', call.run c = .ok a c') ↔ call.Gives a ∧ a.text <+: c.rest := by
  obtain ⟨p, hrun, hreads⟩ := exists_reading hread
  rw [hrun]
  constructor
  · rintro ⟨_, h⟩
    obtain ⟨_, ⟨ha, rfl⟩, hrest, _⟩ := (ofParser_eq_ok_iff hreads).mp h
    exact ⟨ha, hrest⟩
  · rintro ⟨ha, hrest⟩
    exact ⟨_, (ofParser_eq_ok_iff hreads).mpr ⟨_, ⟨ha, rfl⟩, hrest, rfl⟩⟩

end Call

/-- The bytes between the positions of two cursors. -/
def upTo (c c' : Cursor) : Bytes :=
  (c.data.take c'.position).drop c.position

/-- The ranges of the data that the successful ones of some calls move over, in order. -/
def ranges (c : Cursor) : List Call → List Bytes
  | [] => []
  | call :: calls =>
    match call.run c with
    | .ok _ c' => c.upTo c' :: c'.ranges calls
    | .error _ c' => c'.ranges calls

theorem upTo_skip {bs : Bytes} (h : bs <+: c.rest) : c.upTo (c.skip bs.length) = bs := by
  have htake : c.upTo (c.skip bs.length) = c.rest.take bs.length := by
    rw [upTo, skip, List.drop_take, Nat.add_sub_cancel_left, rest]
  rw [htake]
  exact (List.prefix_iff_eq_take.mp h).symm

theorem take_append_upTo (h : c.position ≤ c'.position) :
    c.data.take c.position ++ c.upTo c' = c.data.take c'.position := by
  have htake : c.data.take c.position = (c.data.take c'.position).take c.position := by
    rw [List.take_take, Nat.min_eq_left h]
  rw [htake, upTo, List.take_append_drop]

/-- The position of a cursor lies in its data. -/
def Within (data : Bytes) (c : Cursor) : Prop :=
  c.data = data ∧ c.position ≤ data.length

theorem within_ofBytes (data : Bytes) : Within data (ofBytes data) :=
  ⟨rfl, Nat.zero_le _⟩

theorem Within.skip {data bs : Bytes} (h : Within data c) (hbs : bs <+: c.rest) :
    Within data (c.skip bs.length) := by
  obtain ⟨rfl, hle⟩ := h
  have hlen := hbs.length_le
  rw [length_rest, remaining] at hlen
  exact ⟨rfl, by simp only [Cursor.skip]; omega⟩

theorem Within.leaves {data : Bytes} (h : Within data c) (call : Call) :
    Within data (call.leaves c) := by
  unfold Call.leaves
  split
  next hrun =>
    obtain ⟨htext, rfl⟩ := Call.of_run_eq_ok hrun
    exact h.skip htext
  next hrun => rwa [Call.eq_of_run_eq_error hrun]

theorem Within.after {data : Bytes} (h : Within data c) (calls : List Call) :
    Within data (c.after calls) := by
  induction calls generalizing c with
  | nil => exact h
  | cons call calls ih => exact ih (h.leaves call)

/-- Nothing between the first position and the last one is left out or read twice. -/
theorem take_append_ranges (c : Cursor) (calls : List Call) :
    c.data.take c.position ++ (c.ranges calls).flatten =
      c.data.take (c.after calls).position := by
  induction calls generalizing c with
  | nil => simp [ranges, Cursor.after]
  | cons call calls ih =>
    rw [ranges, Cursor.after, Call.leaves]
    cases hrun : call.run c with
    | error e c' => rw [Call.eq_of_run_eq_error hrun, ih c]
    | ok a c' =>
      obtain ⟨_, rfl⟩ := Call.of_run_eq_ok hrun
      have hle : c.position ≤ (c.skip a.text.length).position := Nat.le_add_right _ _
      rw [List.flatten_cons, ← List.append_assoc, take_append_upTo hle]
      exact ih (c.skip a.text.length)

/-- Calls in any order, after which one more call is made. The position and what remains make up the
data, and what the successful calls moved over is the data up to the position. A call that fails
leaves the cursor where it was, one that succeeds moves it over just the bytes of its answer, and
looking ahead does not move it and finds the byte that lies there, as long as the place to look at
is a word. A read gives an answer just when the bytes of the answer come next. -/
theorem calls_read_in_order (data : Bytes) (calls : List Call) (call : Call) :
    let c := (ofBytes data).after calls
    c.position + c.remaining = data.length ∧
    ((ofBytes data).ranges calls).flatten = data.take c.position ∧
    (∀ e c', call.run c = .error e c' → c' = c) ∧
    (∀ a c', call.run c = .ok a c' →
      c'.position = c.position + a.text.length ∧ c.upTo c' = a.text) ∧
    (∀ offset a c', (Call.peek offset).run c = .ok a c' → c' = c) ∧
    (∀ offset, c.position + offset < UInt64.size →
      (Call.peek offset).run c = .ok (.ahead data[c.position + offset]?) c) ∧
    ((∀ offset, call ≠ .peek offset) → ∀ a,
      (∃ c', call.run c = .ok a c') ↔ call.Gives a ∧ a.text <+: data.drop c.position) := by
  intro c
  obtain ⟨hdata, hposition⟩ := (within_ofBytes data).after calls
  refine ⟨?_, ?_, fun e c' => Call.eq_of_run_eq_error, fun a c' h => ?_,
    fun offset a c' h => (Call.eq_of_run_peek h).2, fun offset h => ?_, fun hread a => ?_⟩
  · show c.position + (c.data.length - c.position) = data.length
    rw [hdata]
    exact Nat.add_sub_of_le hposition
  · exact take_append_ranges (ofBytes data) calls
  · obtain ⟨htext, rfl⟩ := Call.of_run_eq_ok h
    exact ⟨rfl, upTo_skip htext⟩
  · rw [Call.run_peek h, hdata]
  · rw [Call.exists_run_iff hread, rest, hdata]

/-- A word that is too long for what is left fails, and the byte that is left can still be read. -/
theorem byte_read_after_truncated_word :
    let c := (ofBytes [1, 2, 3]).after [.uint16, .peek 7]
    (∃ c', Call.uint32.run c = .error (.unexpectedEnd 2 4 1) c' ∧ c' = c) ∧
    ∃ c', Call.uint8.run c = .ok (.uint8 3) c' ∧ c'.position = 2 + 1 := by
  intro c
  obtain ⟨_, _, hfails, _⟩ := calls_read_in_order [1, 2, 3] [.uint16, .peek 7] .uint32
  obtain ⟨_, _, _, hmoves, _, _, hreads⟩ := calls_read_in_order [1, 2, 3] [.uint16, .peek 7] .uint8
  obtain ⟨c', hrun⟩ := (hreads (fun _ => nofun) (.uint8 3)).mpr ⟨⟨3, rfl⟩, List.prefix_rfl⟩
  exact ⟨⟨_, rfl, hfails _ _ rfl⟩, c', hrun, (hmoves _ _ hrun).1⟩

end Cursor

end BitcoinSpend

import BitcoinSpend.Bytes.Varint
import BitcoinSpend.Proofs.Bytes.Digits

namespace BitcoinSpend

namespace Parser

variable {ε δ α β : Type}

/-- A parser takes exactly the texts that a relation gives to its results. -/
def Reads (p : Parser ε α) (Text : Bytes → α → Prop) : Prop :=
  ∀ r a r', p r = .ok (a, r') ↔
    ∃ bs, Text bs a ∧ r.rest = bs ++ r'.rest ∧ r'.position = r.position + bs.length

/-- The texts of items one after the other. -/
inductive Each (Text : Bytes → α → Prop) : Bytes → List α → Prop
  | nil : Each Text [] []
  | cons {bs cs : Bytes} {x : α} {xs : List α} : Text bs x → Each Text cs xs →
      Each Text (bs ++ cs) (x :: xs)

theorem each_nil_iff {Text : Bytes → α → Prop} {bs : Bytes} : Each Text bs [] ↔ bs = [] := by
  constructor
  · intro h
    cases h
    rfl
  · intro h
    subst h
    exact .nil

theorem each_cons_iff {Text : Bytes → α → Prop} {bs : Bytes} {x : α} {xs : List α} :
    Each Text bs (x :: xs) ↔ ∃ cs ds, bs = cs ++ ds ∧ Text cs x ∧ Each Text ds xs := by
  constructor
  · intro h
    cases h with
    | cons hx hxs => exact ⟨_, _, rfl, hx, hxs⟩
  · intro h
    obtain ⟨cs, ds, rfl, hx, hxs⟩ := h
    exact .cons hx hxs

theorem Each.forall_mem {Text : Bytes → α → Prop} {P : α → Prop} (h : ∀ bs x, Text bs x → P x)
    {bs : Bytes} {xs : List α} (hxs : Each Text bs xs) : ∀ x ∈ xs, P x := by
  induction hxs with
  | nil => simp
  | cons hx _ ih => exact List.forall_mem_cons.mpr ⟨h _ _ hx, ih⟩

theorem each_eq_iff {P : α → Prop} {f : α → Bytes} {bs : Bytes} {xs : List α} :
    Each (fun bs x => P x ∧ bs = f x) bs xs ↔ (∀ x ∈ xs, P x) ∧ bs = xs.flatMap f := by
  induction xs generalizing bs with
  | nil => simp [each_nil_iff]
  | cons x xs ih =>
    simp only [each_cons_iff, ih, List.forall_mem_cons, List.flatMap_cons]
    constructor
    · intro h
      obtain ⟨_, _, rfl, ⟨hx, rfl⟩, hxs, rfl⟩ := h
      exact ⟨⟨hx, hxs⟩, rfl⟩
    · intro h
      obtain ⟨⟨hx, hxs⟩, rfl⟩ := h
      exact ⟨_, _, rfl, ⟨hx, rfl⟩, hxs, rfl⟩

theorem each_exists_iff {P : α → β → Prop} {f : α → β → Bytes} {bs : Bytes} {xs : List α} :
    Each (fun bs x => ∃ y, P x y ∧ bs = f x y) bs xs ↔
      ∃ ys, List.Forall₂ P xs ys ∧ bs = (List.zipWith f xs ys).flatten := by
  induction xs generalizing bs with
  | nil =>
    rw [each_nil_iff]
    constructor
    · intro h
      exact ⟨[], .nil, h⟩
    · intro h
      obtain ⟨_, hys, rfl⟩ := h
      cases hys
      rfl
  | cons x xs ih =>
    simp only [each_cons_iff, ih]
    constructor
    · intro h
      obtain ⟨_, _, rfl, ⟨y, hxy, rfl⟩, ys, hys, rfl⟩ := h
      exact ⟨y :: ys, .cons hxy hys, rfl⟩
    · intro h
      obtain ⟨_, hys, rfl⟩ := h
      cases hys with
      | cons hxy hys => exact ⟨_, _, rfl, ⟨_, hxy, rfl⟩, _, hys, rfl⟩

section

variable {p : Parser ε α} {Text : Bytes → α → Prop}

theorem Reads.congr {Text' : Bytes → α → Prop} (hp : p.Reads Text)
    (h : ∀ bs a, Text bs a ↔ Text' bs a) : p.Reads Text' := by
  intro r a r'
  rw [hp r a r']
  exact exists_congr fun bs => and_congr_left fun _ => h bs a

theorem Reads.pure (a : α) : (pure a : Parser ε α).Reads fun bs b => bs = [] ∧ b = a := by
  intro r b r'
  constructor
  · intro h
    cases Except.ok.inj h
    exact ⟨[], ⟨rfl, rfl⟩, rfl, rfl⟩
  · intro h
    obtain ⟨_, ⟨rfl, rfl⟩, hrest, hposition⟩ := h
    obtain ⟨position, rest⟩ := r'
    simp only [List.nil_append, List.length_nil, Nat.add_zero] at hrest hposition
    subst hrest hposition
    rfl

theorem Reads.ofExcept (e : Except ε α) :
    (liftM e : Parser ε α).Reads fun bs a => bs = [] ∧ e = .ok a := by
  cases e with
  | error e =>
    intro r a r'
    constructor
    · intro h
      cases h
    · intro h
      obtain ⟨_, ⟨_, h⟩, _⟩ := h
      cases h
  | ok b =>
    refine (Reads.pure b).congr fun bs a => ?_
    rw [Except.ok.injEq, eq_comm (a := a)]

theorem Reads.throw_bind (e : ε) (f : α → Parser ε β) :
    ((throw e : Parser ε α) >>= f).Reads fun _ _ => False := by
  intro r b r'
  constructor
  · intro h
    cases h
  · intro h
    obtain ⟨_, hfalse, _⟩ := h
    exact hfalse.elim

theorem bind_eq_ok_iff {f : α → Parser ε β} {r r' : Reader} {b : β} :
    (p >>= f) r = .ok (b, r') ↔ ∃ a s, p r = .ok (a, s) ∧ f a s = .ok (b, r') := by
  show (p r >>= fun x => f x.1 x.2) = .ok (b, r') ↔ _
  cases p r with
  | error e => simp [bind, Except.bind]
  | ok x =>
    obtain ⟨a, s⟩ := x
    simp [bind, Except.bind]

theorem bind_of_ok {f : α → Parser ε β} {r r' : Reader} {a : α} (h : p r = .ok (a, r')) :
    (p >>= f) r = f a r' := by
  show (p r >>= fun x => f x.1 x.2) = _
  rw [h]
  rfl

theorem bind_of_error {f : α → Parser ε β} {r : Reader} {e : ε} (h : p r = .error e) :
    (p >>= f) r = .error e := by
  show (p r >>= fun x => f x.1 x.2) = _
  rw [h]
  rfl

/-- A text for a parser and then one for what it goes on with. The second parser matters only for
what the first one reads. -/
theorem Reads.bind {f : α → Parser ε β} {Rest : α → Bytes → β → Prop} (hp : p.Reads Text)
    (hf : ∀ bs a, Text bs a → (f a).Reads (Rest a)) :
    (p >>= f).Reads fun bs b => ∃ cs a ds, bs = cs ++ ds ∧ Text cs a ∧ Rest a ds b := by
  intro r b r'
  rw [bind_eq_ok_iff]
  constructor
  · intro h
    obtain ⟨a, s, hps, hfs⟩ := h
    obtain ⟨cs, hcs, hrest, hposition⟩ := (hp r a s).mp hps
    obtain ⟨ds, hds, hrest', hposition'⟩ := (hf cs a hcs s b r').mp hfs
    refine ⟨cs ++ ds, ⟨cs, a, ds, rfl, hcs, hds⟩, ?_, ?_⟩
    · rw [hrest, hrest', List.append_assoc]
    · rw [hposition', hposition, List.length_append, Nat.add_assoc]
  · intro h
    obtain ⟨_, ⟨cs, a, ds, rfl, hcs, hds⟩, hrest, hposition⟩ := h
    rw [List.append_assoc] at hrest
    rw [List.length_append, ← Nat.add_assoc] at hposition
    exact ⟨a, ⟨r.position + cs.length, ds ++ r'.rest⟩, (hp _ _ _).mpr ⟨cs, hcs, hrest, rfl⟩,
      (hf cs a hcs _ _ _).mpr ⟨ds, hds, rfl, hposition⟩⟩

theorem Reads.map {f : α → β} (hp : p.Reads Text) :
    (do let a ← p; return f a).Reads fun bs b => ∃ a, Text bs a ∧ f a = b := by
  refine (hp.bind fun _ a _ => Reads.pure (f a)).congr fun bs b => ?_
  constructor
  · intro h
    obtain ⟨cs, a, ds, rfl, hcs, rfl, rfl⟩ := h
    exact ⟨a, by simpa using hcs, rfl⟩
  · intro h
    obtain ⟨a, hbs, rfl⟩ := h
    exact ⟨bs, a, [], by simp, hbs, rfl, rfl⟩

theorem Reads.mapError (hp : p.Reads Text) (f : ε → δ) : (p.mapError f).Reads Text := by
  intro r a r'
  rw [← hp r a r']
  show (p r).mapError f = .ok (a, r') ↔ _
  cases p r <;> simp [Except.mapError]

theorem Reads.replicate (hp : p.Reads Text) (n : Nat) :
    (p.replicate n).Reads fun bs xs => xs.length = n ∧ Each Text bs xs := by
  induction n with
  | zero =>
    refine (Reads.pure []).congr fun bs xs => ?_
    constructor
    · intro h
      obtain ⟨rfl, rfl⟩ := h
      exact ⟨rfl, .nil⟩
    · intro h
      obtain ⟨hlen, heach⟩ := h
      obtain rfl := List.length_eq_zero_iff.mp hlen
      exact ⟨each_nil_iff.mp heach, rfl⟩
  | succ n ih =>
    refine (hp.bind fun _ x _ => ih.map (f := fun xs => x :: xs)).congr fun bs xs => ?_
    constructor
    · intro h
      obtain ⟨cs, x, ds, rfl, hcs, xs, ⟨rfl, hxs⟩, rfl⟩ := h
      exact ⟨rfl, .cons hcs hxs⟩
    · intro h
      obtain ⟨hlen, heach⟩ := h
      cases heach with
      | nil => simp at hlen
      | cons hx hxs => exact ⟨_, _, _, rfl, hx, _, ⟨by simpa using hlen, hxs⟩, rfl⟩

theorem Reads.forEach {f : α → Parser ε β} {entry : β → α} {Text : Bytes → β → Prop} {xs : List α}
    (hf : ∀ x ∈ xs, (f x).Reads fun bs y => entry y = x ∧ Text bs y) :
    (forEach f xs).Reads fun bs ys => ys.map entry = xs ∧ Each Text bs ys := by
  induction xs with
  | nil =>
    refine (Reads.pure []).congr fun bs ys => ?_
    constructor
    · intro h
      obtain ⟨rfl, rfl⟩ := h
      exact ⟨rfl, .nil⟩
    · intro h
      obtain ⟨hmap, heach⟩ := h
      obtain rfl := List.map_eq_nil_iff.mp hmap
      exact ⟨each_nil_iff.mp heach, rfl⟩
  | cons x xs ih =>
    have htail := ih fun y hy => hf y (List.mem_cons_of_mem x hy)
    refine ((hf x List.mem_cons_self).bind fun _ y _ =>
      htail.map (f := fun ys => y :: ys)).congr fun bs ys => ?_
    constructor
    · intro h
      obtain ⟨cs, y, ds, rfl, ⟨rfl, hcs⟩, ys, ⟨rfl, hys⟩, rfl⟩ := h
      exact ⟨rfl, .cons hcs hys⟩
    · intro h
      obtain ⟨hmap, heach⟩ := h
      cases heach with
      | nil => simp at hmap
      | cons hy hys =>
        obtain ⟨hfirst, hrest⟩ := List.cons.inj hmap
        exact ⟨_, _, _, rfl, ⟨hfirst, hy⟩, _, ⟨hrest, hys⟩, rfl⟩

/-- Texts form a prefix code: what is read does not depend on what stands behind it. -/
theorem Reads.unique (hp : p.Reads Text) {bs cs rest rest' : Bytes} {a b : α} (ha : Text bs a)
    (hb : Text cs b) (h : bs ++ rest = cs ++ rest') : bs = cs ∧ a = b ∧ rest = rest' := by
  have hra := (hp ⟨0, bs ++ rest⟩ a ⟨0 + bs.length, rest⟩).mpr ⟨bs, ha, rfl, rfl⟩
  have hrb := (hp ⟨0, bs ++ rest⟩ b ⟨0 + cs.length, rest'⟩).mpr ⟨cs, hb, h, rfl⟩
  have heq := Except.ok.inj (hra.symm.trans hrb)
  obtain ⟨rfl, hreader⟩ := Prod.mk.inj heq
  obtain ⟨_, rfl⟩ := Reader.mk.inj hreader
  exact ⟨List.append_cancel_right h, rfl, rfl⟩

end

end Parser

namespace Reader

theorem reads_bytes (n : Nat) : (bytes n).Reads fun bs a => bs = a ∧ a.length = n := by
  intro r a r'
  simp only [bytes]
  constructor
  · intro h
    split at h
    next hlen =>
      obtain ⟨rfl, rfl⟩ := Prod.mk.inj (Except.ok.inj h)
      exact ⟨_, ⟨rfl, hlen⟩, (List.take_append_drop n r.rest).symm, by rw [hlen]⟩
    next => simp at h
  · intro h
    obtain ⟨_, ⟨rfl, hlen⟩, hrest, hposition⟩ := h
    obtain ⟨position, rest⟩ := r'
    simp only at hrest hposition
    subst hlen hposition
    simp [hrest]

theorem reads_fixed (n : Nat) : (fixed n).Reads fun bs a => bs = a.bytes := by
  intro r a r'
  simp only [fixed]
  constructor
  · intro h
    split at h
    next hlen =>
      obtain ⟨rfl, rfl⟩ := Prod.mk.inj (Except.ok.inj h)
      exact ⟨_, rfl, (List.take_append_drop n r.rest).symm, by rw [hlen]⟩
    next => simp at h
  · intro h
    obtain ⟨_, rfl, hrest, hposition⟩ := h
    obtain ⟨position, rest⟩ := r'
    obtain ⟨bs, hlen⟩ := a
    simp only at hrest hposition
    subst hlen hposition
    simp [hrest]

theorem reads_nat (width : Nat) :
    (nat width).Reads fun bs n => bs.length = width ∧ bs.toNatLE = n := by
  refine (reads_bytes width).map.congr fun bs n => ?_
  constructor
  · intro h
    obtain ⟨_, ⟨rfl, hlen⟩, hn⟩ := h
    exact ⟨hlen, hn⟩
  · intro h
    exact ⟨bs, ⟨rfl, h.1⟩, h.2⟩

theorem bytes_of_lt {n : Nat} {r : Reader} (h : r.rest.length < n) :
    bytes n r = .error (.unexpectedEnd r.position n r.rest.length) := by
  simp only [bytes, List.length_take, remaining]
  rw [if_neg (by omega)]

theorem fixed_of_lt {n : Nat} {r : Reader} (h : r.rest.length < n) :
    fixed n r = .error (.unexpectedEnd r.position n r.rest.length) := by
  simp only [fixed, List.length_take, remaining]
  rw [dif_neg (by omega)]

theorem nat_of_lt {width : Nat} {r : Reader} (h : r.rest.length < width) :
    nat width r = .error (.unexpectedEnd r.position width r.rest.length) :=
  Parser.bind_of_error (bytes_of_lt h)

theorem reads_uint8 : uint8.Reads fun bs b => bs = [b] := by
  refine (reads_nat 1).map.congr fun bs b => ?_
  constructor
  · intro h
    obtain ⟨_, ⟨hlen, rfl⟩, rfl⟩ := h
    obtain ⟨b, rfl⟩ := List.length_eq_one_iff.mp hlen
    simp [Bytes.toNatLE]
  · intro h
    subst h
    exact ⟨_, ⟨rfl, rfl⟩, by simp [Bytes.toNatLE]⟩

theorem reads_word {α : Type} {width : Nat} {f : Nat → α} {write : α → Bytes}
    (h : ∀ bs a, bs = write a ↔ bs.length = width ∧ f bs.toNatLE = a) :
    (do let n ← nat width; return f n).Reads fun bs a => bs = write a := by
  refine (reads_nat width).map.congr fun bs a => ?_
  rw [h]
  constructor
  · intro hall
    obtain ⟨_, ⟨hlen, rfl⟩, ha⟩ := hall
    exact ⟨hlen, ha⟩
  · intro hall
    exact ⟨_, ⟨hall.1, rfl⟩, hall.2⟩

theorem reads_uint16 : uint16.Reads fun bs w => bs = Bytes.ofNatLE 2 w.toNat :=
  reads_word fun _ _ => Bytes.eq_ofUInt16_iff

theorem reads_uint32 : uint32.Reads fun bs w => bs = Bytes.ofUInt32 w :=
  reads_word fun _ _ => Bytes.eq_ofUInt32_iff

theorem reads_int32 : int32.Reads fun bs i => bs = Bytes.ofInt32 i :=
  reads_word fun _ _ => Bytes.eq_ofInt32_iff

theorem reads_int64 : int64.Reads fun bs i => bs = Bytes.ofInt64 i :=
  reads_word fun _ _ => Bytes.eq_ofInt64_iff

end Reader

namespace Varint

/-- The texts of a value: a byte alone, or a tag and bytes that are needed for the value. -/
inductive Form : Bytes → Nat → Prop
  | short {tag : UInt8} : tag < 0xfd → Form [tag] tag.toNat
  | long {tag : UInt8} {chunk : Bytes} : ¬tag < 0xfd → chunk.length = (payload tag).1 →
      (payload tag).2 ≤ chunk.toNatLE → Form (tag :: chunk) chunk.toNatLE

theorem reads_form : read.Reads Form := by
  intro r n r'
  obtain ⟨position, rest⟩ := r
  obtain ⟨position', rest'⟩ := r'
  constructor
  · intro h
    cases rest with
    | nil => simp [read] at h
    | cons tag body =>
      by_cases htag : tag < 0xfd
      · simp only [read, htag, if_true] at h
        cases Except.ok.inj h
        exact ⟨[tag], .short htag, rfl, rfl⟩
      · simp only [read, htag, if_false] at h
        split at h
        next => simp at h
        next hlen =>
          split at h
          next => simp at h
          next hleast =>
            cases Except.ok.inj h
            have hchunk : (body.take (payload tag).1).length = (payload tag).1 := by
              simp only [List.length_take] at hlen ⊢
              omega
            refine ⟨tag :: body.take (payload tag).1, .long htag hchunk (by omega), ?_, ?_⟩
            · simp
            · show position + 1 + (payload tag).1 = position + (_ + 1)
              rw [hchunk]
              omega
  · intro h
    obtain ⟨bs, hbs, hrest, hposition⟩ := h
    simp only at hrest hposition
    subst hrest hposition
    cases hbs with
    | short htag => simp [read, htag]
    | long htag hlen hleast =>
      have hread : ¬Bytes.toNatLE _ < (payload _).2 := Nat.not_lt.mpr hleast
      simp [read, htag, ← hlen, hread, Nat.add_assoc, Nat.add_comm 1]

theorem form_encode {n : Nat} (hn : n < UInt64.size) : Form (encode n) n := by
  have hlong : ∀ tag width, ¬tag < 0xfd → (payload tag).1 = width → n < 256 ^ width →
      (payload tag).2 ≤ n → Form (tag :: Bytes.ofNatLE width n) n := by
    intro tag width htag hwidth hlt hleast
    obtain ⟨hlen, hvalue⟩ := (Bytes.eq_ofNatLE_iff hlt).mp rfl
    rw [← hvalue] at hleast
    have hform : Form (tag :: Bytes.ofNatLE width n) (Bytes.ofNatLE width n).toNatLE :=
      .long htag (by rw [hlen, hwidth]) hleast
    rwa [hvalue] at hform
  unfold encode
  split
  next hsmall =>
    have hvalue : (UInt8.ofNat n).toNat = n := by
      rw [UInt8.toNat_ofNat']
      omega
    have hform : Form [UInt8.ofNat n] (UInt8.ofNat n).toNat := by
      refine .short ?_
      rw [UInt8.lt_iff_toNat_lt, hvalue]
      exact hsmall
    rwa [hvalue] at hform
  next h16 =>
    split
    next h32 => exact hlong 0xfd 2 (by decide) rfl (by omega) (by show 0xfd ≤ n; omega)
    next h32 =>
      split
      next h64 => exact hlong 0xfe 4 (by decide) rfl (by omega) (by show 0x10000 ≤ n; omega)
      next h64 => exact hlong 0xff 8 (by decide) rfl hn (by show 0x100000000 ≤ n; omega)

theorem eq_of_not_lt_tag {tag : UInt8} (h : ¬tag < 0xfd) :
    tag = 0xfd ∨ tag = 0xfe ∨ tag = 0xff := by
  have htop := tag.toNat_lt
  have hfd : (0xfd : UInt8).toNat = 0xfd := rfl
  have hfe : (0xfe : UInt8).toNat = 0xfe := rfl
  have hff : (0xff : UInt8).toNat = 0xff := rfl
  rw [UInt8.lt_iff_toNat_lt] at h
  rw [← UInt8.toNat_inj, ← UInt8.toNat_inj, ← UInt8.toNat_inj]
  omega

theorem eq_encode_of_form {bs : Bytes} {n : Nat} (h : Form bs n) :
    n < UInt64.size ∧ bs = encode n := by
  cases h with
  | @short tag htag =>
    have hsmall : tag.toNat < 0xfd := UInt8.lt_iff_toNat_lt.mp htag
    have hmax : 0xfd ≤ UInt64.size := by decide
    exact ⟨by omega, by simp [encode, hsmall]⟩
  | @long tag chunk htag hlen hleast =>
    have hlt := Bytes.toNatLE_lt chunk
    have hchunk := Bytes.ofNatLE_toNatLE chunk
    rw [hlen] at hlt hchunk
    have hmax : 256 ^ 8 = UInt64.size := by decide
    rcases eq_of_not_lt_tag htag with rfl | rfl | rfl
    · change 0xfd ≤ chunk.toNatLE at hleast
      change chunk.toNatLE < 256 ^ 2 at hlt
      refine ⟨by omega, ?_⟩
      rw [encode, if_neg (by omega), if_pos (by omega)]
      exact congrArg _ hchunk.symm
    · change 0x10000 ≤ chunk.toNatLE at hleast
      change chunk.toNatLE < 256 ^ 4 at hlt
      refine ⟨by omega, ?_⟩
      rw [encode, if_neg (by omega), if_neg (by omega), if_pos (by omega)]
      exact congrArg _ hchunk.symm
    · change 0x100000000 ≤ chunk.toNatLE at hleast
      change chunk.toNatLE < 256 ^ 8 at hlt
      refine ⟨by omega, ?_⟩
      rw [encode, if_neg (by omega), if_neg (by omega), if_neg (by omega)]
      exact congrArg _ hchunk.symm

theorem encode_ne_nil (n : Nat) : encode n ≠ [] := by
  unfold encode
  repeat' split
  all_goals simp

theorem head?_encode_append {n : Nat} {bs : Bytes} :
    (encode n ++ bs).head? = some 0 ↔ n = 0 := by
  unfold encode
  split
  next hsmall =>
    rw [List.cons_append, List.head?_cons, Option.some.injEq, ← UInt8.toNat_inj,
      UInt8.toNat_ofNat', Nat.mod_eq_of_lt (by omega)]
    exact Iff.rfl
  next hlarge =>
    have hne : n ≠ 0 := by omega
    repeat' split
    all_goals simp [hne]

theorem reads_read : read.Reads fun bs n => n < UInt64.size ∧ bs = encode n := by
  refine reads_form.congr fun bs n => ?_
  constructor
  · exact eq_encode_of_form
  · intro h
    obtain ⟨hn, rfl⟩ := h
    exact form_encode hn

end Varint

end BitcoinSpend

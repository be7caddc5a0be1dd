import BitcoinSpend.Proofs.Bytes.Cursor

namespace BitcoinSpend

namespace Varint

variable {position : Nat} {tag : UInt8} {body : Bytes}

theorem encode_append_eq_iff {n m : UInt64} {bs cs : Bytes} :
    encode n.toNat ++ bs = encode m.toNat ++ cs ↔ n = m ∧ bs = cs := by
  constructor
  · intro h
    obtain ⟨_, hvalue, hrest⟩ :=
      reads_read.unique ⟨n.toNat_lt_size, rfl⟩ ⟨m.toNat_lt_size, rfl⟩ h
    exact ⟨UInt64.toNat_inj.mp hvalue, hrest⟩
  · rintro ⟨rfl, rfl⟩
    rfl

/-- A fault behind the first byte is put down to the position of that byte. -/
theorem exists_fault_of_read_cons {e : CodecError} (h : read ⟨position, tag :: body⟩ = .error e) :
    ∃ fault, e = .varint position fault := by
  by_cases htag : tag < 0xfd
  · simp [read, htag] at h
  · simp only [read, htag, if_false] at h
    split at h
    · exact ⟨.missingBytes, (Except.error.inj h).symm⟩
    · split at h
      · exact ⟨.notMinimal, (Except.error.inj h).symm⟩
      · cases h

end Varint

namespace Cursor

variable {c c' : Cursor}

theorem varint_eq_ok_iff {n : Nat} :
    varint c = .ok n c' ↔
      n < UInt64.size ∧ Varint.encode n <+: c.rest ∧ c' = c.skip (Varint.encode n).length := by
  rw [varint_eq_ofParser, ofParser_eq_ok_iff Varint.reads_read]
  constructor
  · rintro ⟨_, ⟨hn, rfl⟩, hrest, hc'⟩
    exact ⟨hn, hrest, hc'⟩
  · rintro ⟨hn, hrest, hc'⟩
    exact ⟨_, ⟨hn, rfl⟩, hrest, hc'⟩

theorem varint_ofBytes (n : UInt64) (bs : Bytes) :
    let c := ofBytes (Varint.encode n.toNat ++ bs)
    varint c = .ok n.toNat (c.skip (Varint.encode n.toNat).length) :=
  varint_eq_ok_iff.mpr ⟨n.toNat_lt_size, List.prefix_append _ _, rfl⟩

theorem of_varint_eq_error {e : CodecError} (h : varint c = .error e c') :
    c' = c ∧ if c.remaining = 0 then e = .unexpectedEnd c.position 1 0
      else ∃ fault, e = .varint c.position fault := by
  rw [varint_eq_ofParser, ofParser] at h
  split at h
  · cases h
  next hread =>
    cases h
    refine ⟨rfl, ?_⟩
    rw [← length_rest]
    cases hrest : c.rest with
    | nil =>
      rw [hrest] at hread
      exact (Except.error.inj hread).symm
    | cons tag body =>
      rw [hrest] at hread
      exact Varint.exists_fault_of_read_cons hread

/-- The texts of values are told apart whatever stands behind them. A value is read just when its
text comes next, and just the text is taken. What fails takes nothing, and the error is that the
data has ended just when no byte is left. -/
theorem varint_canonical_prefix_code :
    (∀ (n m : UInt64) (bs cs : Bytes),
      Varint.encode n.toNat ++ bs = Varint.encode m.toNat ++ cs ↔ n = m ∧ bs = cs) ∧
    (∀ (n : UInt64) (bs : Bytes),
      let c := ofBytes (Varint.encode n.toNat ++ bs)
      varint c = .ok n.toNat (c.skip (Varint.encode n.toNat).length)) ∧
    ∀ c c' : Cursor,
      (∀ n, varint c = .ok n c' ↔
        n < UInt64.size ∧ Varint.encode n <+: c.rest ∧
          c' = c.skip (Varint.encode n).length) ∧
      ∀ e, varint c = .error e c' →
        c' = c ∧ if c.remaining = 0 then e = .unexpectedEnd c.position 1 0
          else ∃ fault, e = .varint c.position fault :=
  ⟨fun _ _ _ _ => Varint.encode_append_eq_iff, varint_ofBytes,
    fun _ _ => ⟨fun _ => varint_eq_ok_iff, fun _ => of_varint_eq_error⟩⟩

/-- A small value behind a tag is malformed, since its text is the value alone. -/
theorem padded_varint_malformed :
    let c : Cursor := ⟨[7, 0xfd, 1, 0], 1⟩
    varint c = .error (.varint 1 .notMinimal) c ∧
    ∃ fault, CodecError.varint 1 .notMinimal = .varint c.position fault := by
  intro c
  have hrun : varint c = .error (.varint 1 .notMinimal) c := rfl
  obtain ⟨_, _, hread⟩ := varint_canonical_prefix_code
  exact ⟨hrun, ((hread c c).2 _ hrun).2⟩

end Cursor

end BitcoinSpend

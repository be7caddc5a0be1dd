import BitcoinSpend.Proofs.Script.Wire

namespace BitcoinSpend

namespace WireCommand

/-- Bytes that start a push and end before it does, and how many bytes reading it asks for: it asks
for the bytes of the length, and once they are there for the data. -/
inductive Unfinished : Bytes → Nat → Prop
  | length {byte : UInt8} {es : Bytes} {width : Nat} :
      byte = 76 ∧ width = 1 ∨ byte = 77 ∧ width = 2 → es.length < width →
      Unfinished (byte :: es) (1 + width)
  | data {byte : UInt8} {es bs : Bytes} {n : Nat} : LengthForm byte es (some n) →
      n ≤ maxElementSize → bs.length < n → Unfinished (byte :: (es ++ bs)) (1 + es.length + n)

/-- Bytes that start with a push of too many bytes, which may be there or not. -/
inductive Overlong : Bytes → Nat → Prop
  | push {byte : UInt8} {es : Bytes} {n : Nat} (rest : Bytes) : LengthForm byte es (some n) →
      maxElementSize < n → Overlong (byte :: (es ++ rest)) n

theorem Unfinished.length_lt {bs : Bytes} {n : Nat} (h : Unfinished bs n) : bs.length < n := by
  cases h with
  | length _ hshort =>
    rw [List.length_cons]
    omega
  | data _ _ hshort =>
    rw [List.length_cons, List.length_append]
    omega

theorem Unfinished.ne_nil {bs : Bytes} {n : Nat} (h : Unfinished bs n) : bs ≠ [] := by
  cases h <;> exact List.cons_ne_nil _ _

theorem Overlong.ne_nil {bs : Bytes} {n : Nat} (h : Overlong bs n) : bs ≠ [] := by
  cases h
  exact List.cons_ne_nil _ _

variable {position : Nat} {byte : UInt8} {es rest : Bytes}

theorem read_cons (position : Nat) (byte : UInt8) (body : Bytes) :
    Command.read ⟨position, byte :: body⟩ = (do
      match ← Command.readPushLength byte with
      | none => return .op ⟨byte⟩
      | some n =>
        if n > maxElementSize then throw (.tooLong n)
        return .data (← Reader.bytes n) : Parser ScriptError Command) ⟨position + 1, body⟩ :=
  Parser.bind_of_ok ((Reader.reads_uint8.liftScript _ _ _).mpr ⟨[byte], rfl, rfl, rfl⟩)

theorem read_of_lengthForm {n : Nat} (h : LengthForm byte es (some n)) :
    Command.read ⟨position, byte :: (es ++ rest)⟩ = (do
      if n > maxElementSize then throw (.tooLong n)
      return .data (← Reader.bytes n) : Parser ScriptError Command)
        ⟨position + 1 + es.length, rest⟩ := by
  rw [read_cons]
  exact Parser.bind_of_ok (((reads_pushLength byte).liftScript _ _ _).mpr ⟨es, h, rfl, rfl⟩)

theorem read_of_unfinished (position : Nat) {bs : Bytes} {n : Nat} (h : Unfinished bs n) :
    ∃ offset needed available, Command.read ⟨position, bs⟩ =
      .error (.truncated (.unexpectedEnd offset needed available)) ∧
        offset + needed = position + n := by
  cases h with
  | @length byte es width hbyte hshort =>
    refine ⟨position + 1, width, es.length, ?_, by omega⟩
    have hnat : Reader.nat width ⟨position + 1, es⟩ = _ := Reader.nat_of_lt hshort
    have hlength : Command.readPushLength byte ⟨position + 1, es⟩ =
        .error (.unexpectedEnd (position + 1) width es.length) := by
      rcases hbyte with ⟨rfl, rfl⟩ | ⟨rfl, rfl⟩
      · exact Parser.bind_of_error hnat
      · exact Parser.bind_of_error hnat
    rw [read_cons]
    exact Parser.bind_of_error (Parser.liftScript_of_error hlength)
  | @data byte es bs n hform hmax hshort =>
    refine ⟨position + 1 + es.length, n, bs.length, ?_, by omega⟩
    rw [read_of_lengthForm hform, if_neg (Nat.not_lt.mpr hmax)]
    exact Parser.bind_of_error (Parser.liftScript_of_error (Reader.bytes_of_lt hshort))

theorem read_of_overlong {bs : Bytes} {n : Nat} (h : Overlong bs n) :
    Command.read ⟨position, bs⟩ = .error (.tooLong n) := by
  cases h with
  | push rest hform hlong =>
    rw [read_of_lengthForm hform, if_pos hlong]
    rfl

/-- A command byte has its length behind it, or ends the bytes before the length does. -/
theorem lengthForm_or_short (byte : UInt8) (body : Bytes) :
    (∃ n es rest, body = es ++ rest ∧ LengthForm byte es n) ∨
      ∃ width, (byte = 76 ∧ width = 1 ∨ byte = 77 ∧ width = 2) ∧ body.length < width := by
  have hkinds : (byte.toNat = 0 ∨ 77 < byte.toNat) ∨ (1 ≤ byte.toNat ∧ byte.toNat ≤ 75) ∨
      byte.toNat = 76 ∨ byte.toNat = 77 := by
    omega
  rcases hkinds with hopcode | hdirect | hone | htwo
  · exact Or.inl ⟨none, [], body, rfl, .opcode hopcode⟩
  · exact Or.inl ⟨_, [], body, rfl, .direct hdirect⟩
  · rcases Nat.lt_or_ge body.length 1 with hshort | hlong
    · exact Or.inr ⟨1, Or.inl ⟨UInt8.toNat_inj.mp hone, rfl⟩, hshort⟩
    · have hlen := List.length_take_of_le hlong
      exact Or.inl ⟨_, _, _, (List.take_append_drop 1 body).symm, .oneByte hone hlen⟩
  · rcases Nat.lt_or_ge body.length 2 with hshort | hlong
    · exact Or.inr ⟨2, Or.inr ⟨UInt8.toNat_inj.mp htwo, rfl⟩, hshort⟩
    · have hlen := List.length_take_of_le hlong
      exact Or.inl ⟨_, _, _, (List.take_append_drop 2 body).symm, .twoBytes htwo hlen⟩

/-- Bytes start with a whole command, or with one that is not all there or pushes too much. -/
theorem cases_bytes (byte : UInt8) (body : Bytes) :
    (∃ (w : WireCommand) (rest : Bytes), byte :: body = w.bytes ++ rest) ∨
      (∃ n, Unfinished (byte :: body) n) ∨ ∃ n, Overlong (byte :: body) n := by
  rcases lengthForm_or_short byte body with ⟨n, es, rest, rfl, hform⟩ | ⟨width, hbyte, hshort⟩
  · cases n with
    | none =>
      have hoperand : Operand byte none [] (.op ⟨byte⟩) := ⟨rfl, rfl⟩
      obtain ⟨w, hw, _⟩ := exists_wire hform hoperand
      refine Or.inl ⟨w, rest, ?_⟩
      rw [hw, List.append_nil, List.cons_append]
    | some n =>
      by_cases hlong : maxElementSize < n
      · exact Or.inr (Or.inr ⟨n, .push rest hform hlong⟩)
      · have hmax := Nat.not_lt.mp hlong
        by_cases hshort : rest.length < n
        · exact Or.inr (Or.inl ⟨_, .data hform hmax hshort⟩)
        · have hlen : (rest.take n).length = n := List.length_take_of_le (Nat.not_lt.mp hshort)
          obtain ⟨w, hw, _⟩ := exists_wire hform ⟨hmax, hlen, rfl⟩
          refine Or.inl ⟨w, rest.drop n, ?_⟩
          rw [hw, List.cons_append, List.append_assoc, List.take_append_drop]
  · exact Or.inr (Or.inl ⟨_, .length hbyte hshort⟩)

end WireCommand

namespace Script

/-- Behind whole commands stands one that is not all there, for which reading asks for bytes up to
the given place. -/
def RunsOff (body : Bytes) (place : Nat) : Prop :=
  ∃ (ws : WireScript) (tail : Bytes) (n : Nat), body = ws.body ++ tail ∧
    WireCommand.Unfinished tail n ∧ place = ws.body.length + n

/-- Behind whole commands stands a push of too many bytes. -/
def Overfills (body : Bytes) (n : Nat) : Prop :=
  ∃ (ws : WireScript) (tail : Bytes), body = ws.body ++ tail ∧ WireCommand.Overlong tail n

theorem RunsOff.length_lt {body : Bytes} {place : Nat} (h : RunsOff body place) :
    body.length < place := by
  obtain ⟨ws, tail, n, rfl, htail, rfl⟩ := h
  rw [List.length_append]
  exact Nat.add_lt_add_left htail.length_lt _

theorem RunsOff.push {w : WireCommand} {body : Bytes} {place : Nat} (h : RunsOff body place) :
    RunsOff (w.bytes ++ body) (w.bytes.length + place) := by
  obtain ⟨ws, tail, n, rfl, htail, rfl⟩ := h
  refine ⟨w :: ws, tail, n, ?_, htail, ?_⟩
  · rw [WireScript.body_cons, List.append_assoc]
  · rw [WireScript.body_cons, List.length_append, Nat.add_assoc]

theorem Overfills.push {w : WireCommand} {body : Bytes} {n : Nat} (h : Overfills body n) :
    Overfills (w.bytes ++ body) n := by
  obtain ⟨ws, tail, rfl, htail⟩ := h
  refine ⟨w :: ws, tail, ?_, htail⟩
  rw [WireScript.body_cons, List.append_assoc]

/-- A body is written in commands, or what stands in it behind commands is no command. -/
theorem cases_body (body : Bytes) :
    (∃ ws : WireScript, ws.body = body) ∨ (∃ place, RunsOff body place) ∨
      ∃ n, Overfills body n := by
  induction hlen : body.length using Nat.strongRecOn generalizing body with
  | ind length ih =>
    cases body with
    | nil => exact Or.inl ⟨[], rfl⟩
    | cons byte body =>
      rcases WireCommand.cases_bytes byte body with ⟨w, rest, hw⟩ | ⟨n, hn⟩ | ⟨n, hn⟩
      · have hpos := List.length_pos_iff.mpr w.bytes_ne_nil
        have hshorter : rest.length < length := by
          rw [← hlen, hw, List.length_append]
          omega
        rw [hw]
        rcases ih rest.length hshorter rest rfl with ⟨ws, hws⟩ | ⟨place, hplace⟩ | ⟨n, hn⟩
        · exact Or.inl ⟨w :: ws, congrArg (w.bytes ++ ·) hws⟩
        · exact Or.inr (Or.inl ⟨_, hplace.push⟩)
        · exact Or.inr (Or.inr ⟨n, hn.push⟩)
      · exact Or.inr (Or.inl ⟨_, [], _, n, rfl, hn, rfl⟩)
      · exact Or.inr (Or.inr ⟨n, [], _, rfl, hn⟩)

theorem readCommands_of_ne_nil {rounds : Nat} {r : Reader} (hne : r.rest ≠ [])
    (hrounds : r.rest.length ≤ rounds) : readCommands rounds r = (do
      let c ← Command.read
      let cs ← readCommands (rounds - 1)
      return c :: cs : Parser ScriptError Script) r := by
  cases rounds with
  | zero => exact absurd (List.length_eq_zero_iff.mp (Nat.le_zero.mp hrounds)) hne
  | succ rounds => exact if_neg (by simpa using hne)

/-- Reading goes through whole commands to the command that fails. -/
theorem readCommands_of_error {ws : WireScript} {tail : Bytes} {e : ScriptError} (htail : tail ≠ [])
    {rounds position : Nat} (hrounds : (ws.body ++ tail).length ≤ rounds)
    (he : Command.read ⟨position + ws.body.length, tail⟩ = .error e) :
    readCommands rounds ⟨position, ws.body ++ tail⟩ = .error e := by
  have hne : ws.body ++ tail ≠ [] := List.append_ne_nil_of_right_ne_nil _ htail
  rw [readCommands_of_ne_nil hne hrounds]
  induction ws generalizing rounds position with
  | nil => exact Parser.bind_of_error he
  | cons w ws ih =>
    have hw : Command.read ⟨position, WireScript.body (w :: ws) ++ tail⟩ =
        .ok (w.command, ⟨position + w.bytes.length, WireScript.body ws ++ tail⟩) :=
      (WireCommand.reads_command _ _ _).mpr ⟨w.bytes, ⟨w, rfl, rfl⟩, List.append_assoc _ _ _, rfl⟩
    have hpos := List.length_pos_iff.mpr w.bytes_ne_nil
    have hrest : WireScript.body ws ++ tail ≠ [] := List.append_ne_nil_of_right_ne_nil _ htail
    have hlen : (WireScript.body ws ++ tail).length ≤ rounds - 1 := by
      rw [WireScript.body_cons, List.append_assoc, List.length_append] at hrounds
      omega
    rw [WireScript.body_cons, List.length_append, ← Nat.add_assoc] at he
    have herror := ih hlen he hrest
    rw [← readCommands_of_ne_nil hrest hlen] at herror
    rw [Parser.bind_of_ok hw]
    exact Parser.bind_of_error herror

theorem ofBody_of_error {ws : WireScript} {tail : Bytes} {e : ScriptError} (htail : tail ≠ [])
    (he : Command.read ⟨ws.body.length, tail⟩ = .error e) :
    ofBody (ws.body ++ tail) = .error e := by
  rw [← Nat.zero_add ws.body.length] at he
  exact congrArg (Except.map Prod.fst) (readCommands_of_error htail (Nat.le_refl _) he)

theorem ofBody_of_runsOff {body : Bytes} {place : Nat} (h : RunsOff body place) :
    ∃ offset needed available, ofBody body =
      .error (.truncated (.unexpectedEnd offset needed available)) ∧ offset + needed = place := by
  obtain ⟨ws, tail, n, rfl, htail, rfl⟩ := h
  obtain ⟨offset, needed, available, he, hplace⟩ :=
    WireCommand.read_of_unfinished ws.body.length htail
  exact ⟨offset, needed, available, ofBody_of_error htail.ne_nil he, hplace⟩

theorem ofBody_of_overfills {body : Bytes} {n : Nat} (h : Overfills body n) :
    ofBody body = .error (.tooLong n) := by
  obtain ⟨ws, tail, rfl, htail⟩ := h
  exact ofBody_of_error htail.ne_nil (WireCommand.read_of_overlong htail)

/-- Reading a body asks for bytes that are not there just if it runs off its end. -/
theorem runsOff_iff {body : Bytes} {place : Nat} :
    RunsOff body place ↔ ∃ offset needed available, ofBody body =
      .error (.truncated (.unexpectedEnd offset needed available)) ∧ offset + needed = place := by
  constructor
  · exact ofBody_of_runsOff
  · intro h
    obtain ⟨offset, needed, available, he, rfl⟩ := h
    rcases cases_body body with ⟨ws, hws⟩ | ⟨place, hplace⟩ | ⟨n, hn⟩
    · have hok := ofBody_eq_ok_iff.mpr ⟨ws, hws, rfl⟩
      rw [he] at hok
      cases hok
    · obtain ⟨_, _, _, he', rfl⟩ := ofBody_of_runsOff hplace
      rw [he] at he'
      cases he'
      exact hplace
    · have hlong := ofBody_of_overfills hn
      rw [he] at hlong
      cases hlong

/-- A body whose length was declared is read, or it runs off its end, or it pushes too much. -/
theorem ofDeclaredBody_cases (body : Bytes) :
    (∃ s, ofBody body = .ok s ∧ ofDeclaredBody body = .ok s) ∨
      (∃ place, RunsOff body place ∧
        ofDeclaredBody body = .error (.lengthMismatch body.length place)) ∨
      ∃ n, Overfills body n ∧ ofDeclaredBody body = .error (.tooLong n) := by
  unfold ofDeclaredBody
  rcases cases_body body with ⟨ws, hws⟩ | ⟨place, hplace⟩ | ⟨n, hn⟩
  · have hbody := ofBody_eq_ok_iff.mpr ⟨ws, hws, rfl⟩
    refine Or.inl ⟨ws.script, hbody, ?_⟩
    rw [hbody]
    rfl
  · obtain ⟨offset, needed, available, he, rfl⟩ := ofBody_of_runsOff hplace
    refine Or.inr (Or.inl ⟨_, hplace, ?_⟩)
    rw [he]
    rfl
  · refine Or.inr (Or.inr ⟨n, hn, ?_⟩)
    rw [ofBody_of_overfills hn]
    rfl

/-- Data starts with a body behind its length. -/
def Framed (data body : Bytes) : Prop :=
  body.length < UInt64.size ∧ Varint.lengthPrefixed body <+: data

/-- Data starts with no length, or with the length of more bytes than stand behind it. -/
def Unframed (data : Bytes) : Prop :=
  (∀ n < UInt64.size, ¬Varint.encode n <+: data) ∨
    ∃ n < UInt64.size, ∃ rest : Bytes, data = Varint.encode n ++ rest ∧ rest.length < n

theorem framed_or_unframed (data : Bytes) : (∃ body, Framed data body) ∨ Unframed data := by
  by_cases h : ∃ n < UInt64.size, Varint.encode n <+: data
  · obtain ⟨n, hn, rest, rfl⟩ := h
    by_cases hshort : rest.length < n
    · exact Or.inr (Or.inr ⟨n, hn, rest, rfl, hshort⟩)
    · have hlen : (rest.take n).length = n := List.length_take_of_le (Nat.not_lt.mp hshort)
      refine Or.inl ⟨rest.take n, hlen.symm ▸ hn, rest.drop n, ?_⟩
      rw [Varint.lengthPrefixed, hlen, List.append_assoc, List.take_append_drop]
  · exact Or.inr (Or.inl fun n hn hdata => h ⟨n, hn, hdata⟩)

theorem read_length {n : Nat} {rest : Bytes} (hn : n < UInt64.size) :
    (liftM Varint.read : Parser ScriptError Nat) (Reader.ofBytes (Varint.encode n ++ rest)) =
      .ok (n, ⟨0 + (Varint.encode n).length, rest⟩) :=
  (Varint.reads_read.liftScript _ _ _).mpr ⟨_, ⟨hn, rfl⟩, rfl, rfl⟩

theorem ofBytes_of_framed {data body : Bytes} (h : Framed data body) :
    ofBytes data =
      (ofDeclaredBody body).map (·, (Varint.encode body.length).length + body.length) := by
  obtain ⟨hlt, rest, rfl⟩ := h
  have hbody : ∀ position, (liftM (Reader.bytes body.length) : Parser ScriptError Bytes)
      ⟨position, body ++ rest⟩ = .ok (body, ⟨position + body.length, rest⟩) := fun position =>
    ((Reader.reads_bytes _).liftScript _ _ _).mpr ⟨_, ⟨rfl, rfl⟩, rfl, rfl⟩
  rw [Varint.lengthPrefixed, List.append_assoc, ofBytes, read,
    Parser.bind_of_ok (read_length hlt), Parser.bind_of_ok (hbody _), Nat.zero_add]
  cases ofDeclaredBody body <;> rfl

theorem ofBytes_of_unframed {data : Bytes} (h : Unframed data) :
    ∃ cause, ofBytes data = .error (.truncated cause) := by
  rcases h with hnone | ⟨n, hn, rest, rfl, hshort⟩
  · cases hread : Varint.read (Reader.ofBytes data) with
    | error cause =>
      refine ⟨cause, ?_⟩
      rw [ofBytes, read, Parser.bind_of_error (Parser.liftScript_of_error hread)]
      rfl
    | ok x =>
      obtain ⟨bs, ⟨hlt, rfl⟩, hdata, _⟩ := (Varint.reads_read _ _ _).mp hread
      exact absurd ⟨_, hdata.symm⟩ (hnone _ hlt)
  · refine ⟨.unexpectedEnd (0 + (Varint.encode n).length) n rest.length, ?_⟩
    rw [ofBytes, read, Parser.bind_of_ok (read_length hn),
      Parser.bind_of_error (Parser.liftScript_of_error (Reader.bytes_of_lt hshort))]
    rfl

/-- Every answer there is, each with what it takes. -/
theorem ofBytes_cases (data : Bytes) :
    (Unframed data ∧ ∃ cause, ofBytes data = .error (.truncated cause)) ∨
      ∃ body, Framed data body ∧
        ((∃ s, ofBody body = .ok s ∧
          ofBytes data = .ok (s, (Varint.encode body.length).length + body.length)) ∨
        (∃ place, RunsOff body place ∧
          ofBytes data = .error (.lengthMismatch body.length place)) ∨
        ∃ n, Overfills body n ∧ ofBytes data = .error (.tooLong n)) := by
  rcases framed_or_unframed data with ⟨body, hframed⟩ | hunframed
  · refine Or.inr ⟨body, hframed, ?_⟩
    rw [ofBytes_of_framed hframed]
    rcases ofDeclaredBody_cases body with ⟨s, hs, h⟩ | ⟨place, hplace, h⟩ | ⟨n, hn, h⟩
    · exact Or.inl ⟨s, hs, by rw [h]; rfl⟩
    · exact Or.inr (Or.inl ⟨place, hplace, by rw [h]; rfl⟩)
    · exact Or.inr (Or.inr ⟨n, hn, by rw [h]; rfl⟩)
  · exact Or.inl ⟨hunframed, ofBytes_of_unframed hunframed⟩

section

variable {data : Bytes}

theorem ofBytes_eq_ok_iff {s : Script} {taken : Nat} : ofBytes data = .ok (s, taken) ↔
    ∃ body, Framed data body ∧ ofBody body = .ok s ∧
      taken = (Varint.encode body.length).length + body.length := by
  constructor
  · intro h
    rcases ofBytes_cases data with ⟨_, _, h'⟩ | ⟨body, hframed, hbody⟩
    · cases h.symm.trans h'
    · rcases hbody with ⟨_, hs, h'⟩ | ⟨_, _, h'⟩ | ⟨_, _, h'⟩
      all_goals cases h.symm.trans h'
      exact ⟨body, hframed, hs, rfl⟩
  · intro h
    obtain ⟨body, hframed, hs, rfl⟩ := h
    rw [ofBytes_of_framed hframed, ofDeclaredBody, hs]
    rfl

theorem ofBytes_ne_truncated {body : Bytes} (h : Framed data body) (cause : CodecError) :
    ofBytes data ≠ .error (.truncated cause) := by
  intro htruncated
  rw [ofBytes_of_framed h] at htruncated
  rcases ofDeclaredBody_cases body with ⟨_, _, h'⟩ | ⟨_, _, h'⟩ | ⟨_, _, h'⟩
  all_goals
    rw [h'] at htruncated
    cases htruncated

theorem ofBytes_truncated_iff :
    (∃ cause, ofBytes data = .error (.truncated cause)) ↔ Unframed data := by
  constructor
  · intro h
    obtain ⟨cause, h⟩ := h
    rcases framed_or_unframed data with ⟨body, hframed⟩ | hunframed
    · exact absurd h (ofBytes_ne_truncated hframed cause)
    · exact hunframed
  · exact ofBytes_of_unframed

theorem ofBytes_lengthMismatch_iff {declared consumed : Nat} :
    ofBytes data = .error (.lengthMismatch declared consumed) ↔
      ∃ body, Framed data body ∧ body.length = declared ∧ RunsOff body consumed := by
  constructor
  · intro h
    rcases ofBytes_cases data with ⟨_, _, h'⟩ | ⟨body, hframed, hbody⟩
    · cases h.symm.trans h'
    · rcases hbody with ⟨_, _, h'⟩ | ⟨_, hoff, h'⟩ | ⟨_, _, h'⟩
      all_goals cases h.symm.trans h'
      exact ⟨body, hframed, rfl, hoff⟩
  · intro h
    obtain ⟨body, hframed, rfl, hoff⟩ := h
    obtain ⟨offset, needed, available, he, rfl⟩ := ofBody_of_runsOff hoff
    rw [ofBytes_of_framed hframed, ofDeclaredBody, he]
    rfl

theorem ofBytes_tooLong_iff {n : Nat} :
    ofBytes data = .error (.tooLong n) ↔ ∃ body, Framed data body ∧ Overfills body n := by
  constructor
  · intro h
    rcases ofBytes_cases data with ⟨_, _, h'⟩ | ⟨body, hframed, hbody⟩
    · cases h.symm.trans h'
    · rcases hbody with ⟨_, _, h'⟩ | ⟨_, _, h'⟩ | ⟨_, hlong, h'⟩
      all_goals cases h.symm.trans h'
      exact ⟨body, hframed, hlong⟩
  · intro h
    obtain ⟨body, hframed, hlong⟩ := h
    rw [ofBytes_of_framed hframed, ofDeclaredBody, ofBody_of_overfills hlong]
    rfl

end

/-- What reading a script behind its length answers. The length in front decides whether the data is
truncated, and the body alone decides on everything else: one that runs off its end asks for bytes
behind it when it is read by itself. -/
theorem ofBytes_classified (data : Bytes) :
    (∀ s taken, ofBytes data = .ok (s, taken) ↔
      ∃ body, Framed data body ∧ ofBody body = .ok s ∧
        taken = (Varint.encode body.length).length + body.length) ∧
      ((∃ cause, ofBytes data = .error (.truncated cause)) ↔ Unframed data) ∧
      (∀ declared consumed, (ofBytes data = .error (.lengthMismatch declared consumed) ↔
        ∃ body, Framed data body ∧ body.length = declared ∧ RunsOff body consumed) ∧
        (ofBytes data = .error (.lengthMismatch declared consumed) → declared < consumed)) ∧
      (∀ n, ofBytes data = .error (.tooLong n) ↔ ∃ body, Framed data body ∧ Overfills body n) ∧
      (∀ body, Framed data body → ∀ cause, ofBytes data ≠ .error (.truncated cause)) ∧
      ∀ body place, RunsOff body place ↔ ∃ offset needed available, ofBody body =
        .error (.truncated (.unexpectedEnd offset needed available)) ∧
          offset + needed = place := by
  refine ⟨fun _ _ => ofBytes_eq_ok_iff, ofBytes_truncated_iff, fun declared consumed => ?_,
    fun _ => ofBytes_tooLong_iff, fun _ => ofBytes_ne_truncated, fun _ _ => runsOff_iff⟩
  refine ⟨ofBytes_lengthMismatch_iff, fun h => ?_⟩
  obtain ⟨body, _, rfl, hoff⟩ := ofBytes_lengthMismatch_iff.mp h
  exact hoff.length_lt

/-- A push of four bytes in a body of three, and a push of 521 bytes none of which are there. -/
theorem ofBytes_of_faults :
    ofBytes [0x03, 0x04, 0xaa, 0xbb, 0xcc] = .error (.lengthMismatch 3 5) ∧
      ofBytes [0x03, 0x4d, 0x09, 0x02] = .error (.tooLong 521) := by
  have hfour : WireCommand.LengthForm 0x04 [] (some 4) := .direct (by decide)
  have hmany : WireCommand.LengthForm 0x4d [0x09, 0x02] (some 521) := .twoBytes rfl rfl
  have hshort : WireCommand.Unfinished [0x04, 0xaa, 0xbb] 5 :=
    .data hfour (by decide) (by decide)
  have hlong : WireCommand.Overlong [0x4d, 0x09, 0x02] 521 := .push [] hmany (by decide)
  refine ⟨((ofBytes_classified _).2.2.1 3 5).1.mpr ⟨[0x04, 0xaa, 0xbb], ?_, rfl, ?_⟩,
    ((ofBytes_classified _).2.2.2.1 521).mpr ⟨[0x4d, 0x09, 0x02], ?_, ?_⟩⟩
  · exact ⟨by decide, [0xcc], rfl⟩
  · exact ⟨[], _, _, rfl, hshort, rfl⟩
  · exact ⟨by decide, [], rfl⟩
  · exact ⟨[], _, rfl, hlong⟩

end Script

end BitcoinSpend

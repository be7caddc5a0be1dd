import BitcoinSpend.Proofs.Script.Wire
import Mathlib.Data.List.Forall2

namespace BitcoinSpend

theorem exists_forall₂_iff {α β : Type} {R : α → β → Prop} {P : β → Prop} {xs : List α} :
    (∃ ys, List.Forall₂ R xs ys ∧ ∀ y ∈ ys, P y) ↔ ∀ x ∈ xs, ∃ y, R x y ∧ P y := by
  induction xs with
  | nil =>
    constructor
    · simp
    · intro _
      exact ⟨[], .nil, by simp⟩
  | cons x xs ih =>
    rw [List.forall_mem_cons, ← ih]
    constructor
    · intro h
      obtain ⟨_, hys, hall⟩ := h
      cases hys with
      | cons hxy hys =>
        rw [List.forall_mem_cons] at hall
        exact ⟨⟨_, hxy, hall.1⟩, _, hys, hall.2⟩
    · intro h
      obtain ⟨⟨y, hxy, hy⟩, ys, hys, hall⟩ := h
      exact ⟨y :: ys, .cons hxy hys, List.forall_mem_cons.mpr ⟨hy, hall⟩⟩

namespace Command

/-- A command that reading gives back from its shortest form: an opcode that starts no push, or a
push of some bytes. -/
def IsCanonical : Command → Prop
  | .op code => code.byte.toNat = 0 ∨ 78 ≤ code.byte.toNat
  | .data bs => 1 ≤ bs.length ∧ bs.length ≤ maxElementSize

instance (c : Command) : Decidable c.IsCanonical :=
  match c with
  | .op _ => inferInstanceAs (Decidable (_ ∨ _))
  | .data _ => inferInstanceAs (Decidable (_ ∧ _))

theorem isCanonical_iff {c : Command} :
    c.IsCanonical ↔ ∃ w : WireCommand, w.command = c ∧ w.IsShortest := by
  constructor
  · intro h
    cases c with
    | op code => exact ⟨.op code.byte h, rfl, trivial⟩
    | data bs =>
      obtain ⟨hpos, hmax⟩ := h
      by_cases hdirect : bs.length ≤ 75
      · exact ⟨.direct bs ⟨hpos, hdirect⟩, rfl, trivial⟩
      · by_cases hone : bs.length ≤ 0xff
        · exact ⟨.oneByte bs hone, rfl, Nat.not_le.mp hdirect⟩
        · exact ⟨.twoBytes bs hmax, rfl, Nat.not_le.mp hone⟩
  · intro h
    obtain ⟨w, rfl, hshortest⟩ := h
    cases w with
    | op code h => exact h
    | direct bs h => exact ⟨h.1, by unfold maxElementSize; omega⟩
    | oneByte bs h =>
      change 75 < bs.length at hshortest
      exact ⟨by omega, by unfold maxElementSize; omega⟩
    | twoBytes bs h =>
      change 0xff < bs.length at hshortest
      exact ⟨by omega, h⟩

end Command

theorem WireScript.exists_shortest_iff {s : Script} :
    (∃ ws : WireScript, ws.script = s ∧ ws.IsShortest) ↔ ∀ c ∈ s, c.IsCanonical := by
  simp only [Command.isCanonical_iff]
  rw [← exists_forall₂_iff]
  refine exists_congr fun ws => and_congr_left fun _ => ?_
  rw [script, ← List.forall₂_eq_eq_eq, List.forall₂_map_left_iff]
  exact ⟨.flip, .flip⟩

namespace Command

/-- What a command is read back as: the push of nothing is written as the opcode for it. -/
def canonical : Command → Command
  | .data [] => .op .zero
  | c => c

@[simp] theorem canonical_canonical (c : Command) : c.canonical.canonical = c.canonical := by
  cases c with
  | op code => rfl
  | data bs => cases bs <;> rfl

@[simp] theorem encode_canonical (c : Command) : c.canonical.encode = c.encode := by
  unfold canonical
  split <;> rfl

theorem encode_eq_error_iff {c : Command} {e : ScriptError} : c.encode = .error e ↔
    ∃ bs, c = .data bs ∧ maxElementSize < bs.length ∧ e = .tooLong bs.length := by
  constructor
  · intro h
    cases c with
    | op code => cases h
    | data bs =>
      simp only [encode] at h
      split at h
      next => cases h
      next =>
        split at h
        next => cases h
        next =>
          split at h
          next => cases h
          next hlong =>
            cases h
            exact ⟨bs, rfl, Nat.not_le.mp hlong, rfl⟩
  · intro h
    obtain ⟨bs, rfl, hlong, rfl⟩ := h
    have hmax : 0xff < maxElementSize := by decide
    simp only [encode]
    rw [if_neg (by omega), if_neg (by omega), if_neg (by omega)]

theorem exists_encode_iff {c : Command} :
    (∃ b, c.encode = .ok b) ↔ ∀ bs, c = .data bs → bs.length ≤ maxElementSize := by
  constructor
  · intro h bs hc
    obtain ⟨b, hb⟩ := h
    by_contra hlong
    have herror := encode_eq_error_iff.mpr ⟨bs, hc, Nat.not_le.mp hlong, rfl⟩
    rw [hb] at herror
    cases herror
  · intro h
    cases hc : c.encode with
    | ok b => exact ⟨b, rfl⟩
    | error e =>
      obtain ⟨bs, hbs, hlong, _⟩ := encode_eq_error_iff.mp hc
      exact absurd (h bs hbs) (Nat.not_le.mpr hlong)

end Command

namespace WireCommand

variable {w w' : WireCommand}

theorem isCanonical_canonical (w : WireCommand) : w.command.canonical.IsCanonical := by
  have hdata : ∀ bs : Bytes, bs.length ≤ maxElementSize →
      (Command.data bs).canonical.IsCanonical := by
    intro bs hbs
    cases bs with
    | nil => exact Or.inl rfl
    | cons b bs => exact ⟨Nat.succ_pos _, hbs⟩
  have hmax : 0xff ≤ maxElementSize := by decide
  cases w with
  | op code h => exact h
  | direct bs h => exact hdata bs (by omega)
  | oneByte bs h => exact hdata bs (by omega)
  | twoBytes bs h => exact hdata bs h

theorem shortest_eq_of_canonical (h : w'.command.canonical = w.command.canonical) :
    w'.shortest = w.shortest := by
  have hencode := congrArg Command.encode h
  rw [Command.encode_canonical, Command.encode_canonical, encode_command, encode_command] at hencode
  exact Except.ok.inj hencode

/-- The shortest form is the one that no form of the same command is shorter than. -/
theorem isShortest_iff : w.IsShortest ↔ ∀ w' : WireCommand,
    w'.command.canonical = w.command.canonical → w.bytes.length ≤ w'.bytes.length := by
  constructor
  · intro h w' hw'
    rw [bytes_eq_shortest h, ← shortest_eq_of_canonical hw']
    exact w'.length_shortest_le
  · intro h
    by_contra hlong
    -- The canonical command has a shortest form, and that one is shorter.
    obtain ⟨w', hcommand, hw'⟩ := Command.isCanonical_iff.mp w.isCanonical_canonical
    have hsame : w'.command.canonical = w.command.canonical := by
      rw [hcommand, Command.canonical_canonical]
    have hle := h w' hsame
    rw [bytes_eq_shortest hw', shortest_eq_of_canonical hsame] at hle
    have hlt := length_shortest_lt hlong
    omega

theorem eq_of_bytes (hbytes : w.bytes = w'.bytes) (hcommand : w.command = w'.command) : w = w' := by
  have hlen := congrArg List.length hbytes
  cases w with
  | op code h =>
    cases w' with
    | op code' h' => cases hcommand; rfl
    | direct | oneByte | twoBytes => cases hcommand
  | direct bs h =>
    cases w' with
    | op => cases hcommand
    | direct => cases hcommand; rfl
    | oneByte | twoBytes =>
      cases hcommand
      simp only [bytes, List.length_append, List.length_cons, Bytes.length_ofNatLE] at hlen
      omega
  | oneByte bs h =>
    cases w' with
    | op => cases hcommand
    | oneByte => cases hcommand; rfl
    | direct | twoBytes =>
      cases hcommand
      simp only [bytes, List.length_append, List.length_cons, Bytes.length_ofNatLE] at hlen
      omega
  | twoBytes bs h =>
    cases w' with
    | op => cases hcommand
    | twoBytes => cases hcommand; rfl
    | direct | oneByte =>
      cases hcommand
      simp only [bytes, List.length_append, List.length_cons, Bytes.length_ofNatLE] at hlen
      omega

end WireCommand

/-- The bytes of a body tell the commands and the form of each. -/
theorem WireScript.body_inj {ws ws' : WireScript} (h : ws.body = ws'.body) : ws = ws' := by
  induction ws generalizing ws' with
  | nil =>
    cases ws' with
    | nil => rfl
    | cons w' ws' => exact absurd (List.append_eq_nil_iff.mp h.symm).1 w'.bytes_ne_nil
  | cons w ws ih =>
    cases ws' with
    | nil => exact absurd (List.append_eq_nil_iff.mp h).1 w.bytes_ne_nil
    | cons w' ws' =>
      obtain ⟨hbytes, hcommand, hrest⟩ :=
        WireCommand.reads_command.unique ⟨w, rfl, rfl⟩ ⟨w', rfl, rfl⟩ h
      rw [WireCommand.eq_of_bytes hbytes hcommand, ih hrest]

namespace Script

variable {s : Script} {b raw : Bytes}

theorem body_map_canonical (s : Script) : body (s.map Command.canonical) = s.body := by
  induction s with
  | nil => rfl
  | cons c s ih => simp only [List.map_cons, body, Command.encode_canonical, ih]

theorem body_cons_eq_error_iff {c : Command} {e : ScriptError} : body (c :: s) = .error e ↔
    c.encode = .error e ∨ (∃ front, c.encode = .ok front) ∧ s.body = .error e := by
  simp only [body]
  cases c.encode <;> cases s.body <;> simp [bind, Except.bind, pure, Except.pure]

/-- The first push that is too long is the one that is named. -/
theorem body_eq_error_iff {e : ScriptError} : s.body = .error e ↔ ∃ front bs back,
    s = front ++ .data bs :: back ∧ (∀ bs', .data bs' ∈ front → bs'.length ≤ maxElementSize) ∧
      maxElementSize < bs.length ∧ e = .tooLong bs.length := by
  induction s with
  | nil => simp [body]
  | cons c s ih =>
    rw [body_cons_eq_error_iff, Command.encode_eq_error_iff, Command.exists_encode_iff, ih]
    constructor
    · intro h
      rcases h with ⟨bs, rfl, hlong, he⟩ | ⟨hc, front, bs, back, rfl, hfront, hlong, he⟩
      · exact ⟨[], bs, s, rfl, by simp, hlong, he⟩
      · refine ⟨c :: front, bs, back, rfl, fun bs' hbs' => ?_, hlong, he⟩
        rcases List.mem_cons.mp hbs' with hc' | hbs'
        · exact hc bs' hc'.symm
        · exact hfront bs' hbs'
    · intro h
      obtain ⟨front, bs, back, hs, hfront, hlong, he⟩ := h
      cases front with
      | nil =>
        cases hs
        exact Or.inl ⟨bs, rfl, hlong, he⟩
      | cons c' front =>
        cases hs
        obtain ⟨hc, hfront⟩ : (∀ bs', c = .data bs' → bs'.length ≤ maxElementSize) ∧
            ∀ bs', .data bs' ∈ front → bs'.length ≤ maxElementSize :=
          ⟨fun bs' hc => hfront bs' (by simp [hc]),
            fun bs' h => hfront bs' (List.mem_cons_of_mem c h)⟩
        exact Or.inr ⟨hc, front, bs, back, rfl, hfront, hlong, he⟩

theorem exists_body_error {bs : Bytes} (h : .data bs ∈ s) (hlong : maxElementSize < bs.length) :
    ∃ e, s.body = .error e := by
  induction s with
  | nil => cases h
  | cons c s ih =>
    cases hc : c.encode with
    | error e => exact ⟨e, body_cons_eq_error_iff.mpr (.inl hc)⟩
    | ok front =>
      rcases List.mem_cons.mp h with rfl | h
      · have hle := Command.exists_encode_iff.mp ⟨front, hc⟩ bs rfl
        omega
      · obtain ⟨e, he⟩ := ih h
        exact ⟨e, body_cons_eq_error_iff.mpr (.inr ⟨⟨front, hc⟩, he⟩)⟩

/-- Commands that reading gives are read back from what they are written as. -/
theorem ofBody_body_of_isCanonical (h : ∀ c ∈ s, c.IsCanonical) :
    ∃ b, s.body = .ok b ∧ ofBody b = .ok s := by
  obtain ⟨ws, rfl, hws⟩ := WireScript.exists_shortest_iff.mpr h
  refine ⟨_, body_script ws, ofBody_eq_ok_iff.mpr ⟨ws, ?_, rfl⟩⟩
  exact (WireScript.shortest_eq_body_iff.mpr hws).symm

theorem bytes_eq_ok_of_body (hb : s.body = .ok b) : s.bytes = .ok (Varint.lengthPrefixed b) := by
  simp [bytes, hb, bind, Except.bind, pure, Except.pure]

/-- Behind its length a body is read from the front of the data. -/
theorem ofBytes_lengthPrefixed (hb : ofBody b = .ok s) (hlen : b.length < UInt64.size)
    (rest : Bytes) : ofBytes (Varint.lengthPrefixed b ++ rest) =
      .ok (s, (Varint.lengthPrefixed b).length) := by
  obtain ⟨ws, rfl, hws⟩ := ofBody_eq_ok_iff.mp hb
  have hread := (reads_read ⟨0, Varint.lengthPrefixed ws.body ++ rest⟩ s
    ⟨0 + (Varint.lengthPrefixed ws.body).length, rest⟩).mpr
      ⟨_, ⟨ws, ⟨hws, hlen⟩, rfl⟩, rfl, rfl⟩
  rw [Nat.zero_add] at hread
  simp [ofBytes, Reader.ofBytes, hread, Except.map]

/-- What a body is read as is written with the shortest form for each of its pushes. -/
theorem body_of_ofBody (hraw : ofBody raw = .ok s) : ∃ b, s.body = .ok b ∧
    b.length ≤ raw.length ∧ ofBody b = .ok (s.map Command.canonical) ∧
      ∃ ws : WireScript, ws.body = raw ∧ ws.script = s ∧ (b = raw ↔ ws.IsShortest) := by
  obtain ⟨ws, rfl, rfl⟩ := ofBody_eq_ok_iff.mp hraw
  -- What is written is also what the canonical commands are written as.
  have hcanonical : ∀ c ∈ ws.script.map Command.canonical, c.IsCanonical := by
    simp only [WireScript.script, List.map_map, List.forall_mem_map, Function.comp_apply]
    exact fun w _ => w.isCanonical_canonical
  obtain ⟨b, hb, hread⟩ := ofBody_body_of_isCanonical hcanonical
  rw [body_map_canonical, body_script] at hb
  obtain rfl := Except.ok.inj hb
  exact ⟨_, body_script ws, ws.length_shortest_le, hread, ws, rfl, rfl,
    WireScript.shortest_eq_body_iff⟩

theorem length_le_of_ofBody {body x : Bytes} (h : ofBody body = .ok s) (hx : .data x ∈ s) :
    x.length ≤ maxElementSize := by
  obtain ⟨b, hb, _⟩ := body_of_ofBody h
  by_contra hlong
  obtain ⟨e, he⟩ := exists_body_error hx (Nat.not_le.mp hlong)
  rw [hb] at he
  cases he

theorem length_le_of_ofBytes {data x : Bytes} {n : Nat} (h : ofBytes data = .ok (s, n))
    (hx : .data x ∈ s) : x.length ≤ maxElementSize := by
  unfold ofBytes at h
  cases hread : read (Reader.ofBytes data) with
  | error e => simp [hread, Except.map] at h
  | ok r =>
    rw [hread] at h
    cases h
    obtain ⟨_, ⟨ws, ⟨hws, _⟩, _⟩, _⟩ := (reads_read _ _ _).mp hread
    exact length_le_of_ofBody (ofBody_eq_ok_iff.mpr ⟨ws, rfl, hws⟩) hx

/-- Scripts of canonical commands are read back from what they are written as, alone and behind
their length. Whatever is read is written again, in no more bytes and in the same ones just if no
command has a shorter form than the one it was read in, and then reads as the canonical commands.
Only a push that is too long cannot be written. A body that a machine holds has fewer than `2 ^ 64`
bytes, as its length is a word. -/
theorem codec_canonicalises :
    (∀ s : Script, (∀ c ∈ s, c.IsCanonical) →
      ∃ b framed, s.body = .ok b ∧ ofBody b = .ok s ∧ s.bytes = .ok framed ∧
        (b.length < UInt64.size → ∀ rest, ofBytes (framed ++ rest) = .ok (s, framed.length))) ∧
    (∀ raw s, ofBody raw = .ok s →
      ∃ b, s.body = .ok b ∧ b.length ≤ raw.length ∧ ofBody b = .ok (s.map Command.canonical) ∧
        ∃ ws : WireScript, ws.body = raw ∧ ws.script = s ∧ (∀ ws' : WireScript, ws'.body = raw →
          ws' = ws) ∧ (b = raw ↔ ∀ w ∈ ws, ∀ w' : WireCommand,
            w'.command.canonical = w.command.canonical → w.bytes.length ≤ w'.bytes.length)) ∧
    ∀ s : Script,
      ((∃ e, s.body = .error e) ↔ ∃ bs, .data bs ∈ s ∧ maxElementSize < bs.length) ∧
      ∀ e, s.body = .error e ↔ ∃ front bs back, s = front ++ .data bs :: back ∧
        (∀ bs', .data bs' ∈ front → bs'.length ≤ maxElementSize) ∧
        maxElementSize < bs.length ∧ e = .tooLong bs.length := by
  refine ⟨fun s hs => ?_, fun raw s hraw => ?_, fun s => ⟨⟨fun h => ?_, fun h => ?_⟩, ?_⟩⟩
  · obtain ⟨b, hb, hread⟩ := ofBody_body_of_isCanonical hs
    exact ⟨b, _, hb, hread, bytes_eq_ok_of_body hb, ofBytes_lengthPrefixed hread⟩
  · obtain ⟨b, hb, hlen, hread, ws, rfl, hscript, hiff⟩ := body_of_ofBody hraw
    refine ⟨b, hb, hlen, hread, ws, rfl, hscript, fun ws' h => WireScript.body_inj h, ?_⟩
    simp only [hiff, WireScript.IsShortest, WireCommand.isShortest_iff]
  · obtain ⟨e, he⟩ := h
    obtain ⟨front, bs, back, rfl, _, hlong, _⟩ := body_eq_error_iff.mp he
    exact ⟨bs, by simp, hlong⟩
  · obtain ⟨bs, hbs, hlong⟩ := h
    exact exists_body_error hbs hlong
  · exact fun e => body_eq_error_iff

/-- An empty push, a push of three bytes behind its length and one behind an opcode, which takes a
byte more than it needs. -/
def mixedBody : Bytes :=
  [0x4c, 0x00, 0x03, 1, 2, 3, 0x4c, 0x01, 7, 0xac]

theorem mixedBody_canonicalised :
    (ofBody mixedBody = .ok [.data [], .data [1, 2, 3], .data [7], .op .checkSig] ∧
      ∃ b, body [.data [], .data [1, 2, 3], .data [7], .op .checkSig] = .ok b ∧
        b.length ≤ mixedBody.length ∧
        ofBody b = .ok [.op .zero, .data [1, 2, 3], .data [7], .op .checkSig]) ∧
    (∃ framed, bytes [.op .zero, .data [1, 2, 3], .data [7], .op .checkSig] = .ok framed ∧
      ∀ rest, ofBytes (framed ++ rest) =
        .ok ([.op .zero, .data [1, 2, 3], .data [7], .op .checkSig], framed.length)) ∧
    ∃ e, body [.data (List.replicate 521 0)] = .error e := by
  obtain ⟨hback, hraw, hfails⟩ := codec_canonicalises
  have hread : ofBody mixedBody = .ok [.data [], .data [1, 2, 3], .data [7], .op .checkSig] := rfl
  obtain ⟨b, hb, hlen, hagain, _⟩ := hraw _ _ hread
  obtain ⟨b', framed, hb', _, hframed, hfront⟩ :=
    hback [.op .zero, .data [1, 2, 3], .data [7], .op .checkSig] (by decide)
  obtain rfl : [0x00, 0x03, 1, 2, 3, 0x01, 7, 0xac] = b' := Except.ok.inj hb'
  refine ⟨⟨hread, b, hb, hlen, hagain⟩, ⟨framed, hframed, hfront (by decide)⟩, ?_⟩
  refine (hfails [.data (List.replicate 521 0)]).1.mpr ⟨_, List.mem_singleton.mpr rfl, ?_⟩
  rw [List.length_replicate]
  decide

end Script

end BitcoinSpend

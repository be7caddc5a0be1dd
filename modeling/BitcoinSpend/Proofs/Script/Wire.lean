import BitcoinSpend.Proofs.Bytes.Reading
import BitcoinSpend.Script.Codec

namespace BitcoinSpend

/-- A command with the form in which it is written. -/
inductive WireCommand where
  | op (code : UInt8) (h : code.toNat = 0 ∨ 77 < code.toNat)
  | direct (bs : Bytes) (h : 1 ≤ bs.length ∧ bs.length ≤ 75)
  | oneByte (bs : Bytes) (h : bs.length ≤ 0xff)
  | twoBytes (bs : Bytes) (h : bs.length ≤ maxElementSize)

theorem Parser.Reads.liftScript {α : Type} {p : Parser CodecError α} {Text : Bytes → α → Prop}
    (hp : p.Reads Text) : (liftM p : Parser ScriptError α).Reads Text :=
  hp.mapError ScriptError.truncated

theorem Parser.liftScript_of_error {α : Type} {p : Parser CodecError α} {r : Reader}
    {e : CodecError} (h : p r = .error e) :
    (liftM p : Parser ScriptError α) r = .error (.truncated e) :=
  congrArg (Except.mapError ScriptError.truncated) h

namespace WireCommand

def command : WireCommand → Command
  | op code _ => .op ⟨code⟩
  | direct bs _ => .data bs
  | oneByte bs _ => .data bs
  | twoBytes bs _ => .data bs

def bytes : WireCommand → Bytes
  | op code _ => [code]
  | direct bs _ => UInt8.ofNat bs.length :: bs
  | oneByte bs _ => 76 :: UInt8.ofNat bs.length :: bs
  | twoBytes bs _ => 77 :: Bytes.ofNatLE 2 bs.length ++ bs

theorem bytes_ne_nil (w : WireCommand) : w.bytes ≠ [] := by
  cases w <;> simp [bytes]

/-- The form with the fewest bytes; the shortest push of nothing is the byte zero. -/
def shortest (w : WireCommand) : Bytes :=
  match w.command with
  | .op code => [code.byte]
  | .data bs =>
    if bs.length ≤ 75 then UInt8.ofNat bs.length :: bs
    else if bs.length ≤ 0xff then 76 :: UInt8.ofNat bs.length :: bs
    else 77 :: Bytes.ofNatLE 2 bs.length ++ bs

/-- A push needs the form that it is written in. -/
def IsShortest : WireCommand → Prop
  | op _ _ => True
  | direct _ _ => True
  | oneByte bs _ => 75 < bs.length
  | twoBytes bs _ => 0xff < bs.length

theorem encode_command (w : WireCommand) : w.command.encode = .ok w.shortest := by
  have hdata : ∀ bs : Bytes, bs.length ≤ maxElementSize → (Command.data bs).encode =
      .ok (if bs.length ≤ 75 then UInt8.ofNat bs.length :: bs
        else if bs.length ≤ 0xff then 76 :: UInt8.ofNat bs.length :: bs
        else 77 :: Bytes.ofNatLE 2 bs.length ++ bs) := by
    intro bs hbs
    simp only [Command.encode, hbs, if_true]
    split
    next => rfl
    next => split <;> rfl
  cases w with
  | op code h => rfl
  | direct bs h => exact hdata bs (by unfold maxElementSize; omega)
  | oneByte bs h => exact hdata bs (by unfold maxElementSize; omega)
  | twoBytes bs h => exact hdata bs h

theorem bytes_eq_shortest {w : WireCommand} (h : w.IsShortest) : w.bytes = w.shortest := by
  cases w with
  | op code _ => rfl
  | direct bs hbs => simp [bytes, shortest, command, hbs.2]
  | oneByte bs hbs =>
    have hlong : ¬bs.length ≤ 75 := Nat.not_le.mpr h
    simp [bytes, shortest, command, hlong, hbs]
  | twoBytes bs hbs =>
    have hlong : ¬bs.length ≤ 0xff := Nat.not_le.mpr h
    have hlong' : ¬bs.length ≤ 75 := by omega
    simp [bytes, shortest, command, hlong, hlong']

theorem length_shortest_lt {w : WireCommand} (h : ¬w.IsShortest) :
    w.shortest.length < w.bytes.length := by
  cases w with
  | op code _ => exact absurd trivial h
  | direct bs _ => exact absurd trivial h
  | oneByte bs hbs =>
    have hshort : bs.length ≤ 75 := Nat.not_lt.mp h
    simp [bytes, shortest, command, hshort]
  | twoBytes bs hbs =>
    have hshort : bs.length ≤ 0xff := Nat.not_lt.mp h
    simp only [bytes, shortest, command]
    split
    next => simp
    next =>
      simp only [List.length_append, List.length_cons, Bytes.length_ofNatLE]
      omega

theorem length_shortest_le (w : WireCommand) : w.shortest.length ≤ w.bytes.length := by
  by_cases h : w.IsShortest
  · exact Nat.le_of_eq (congrArg _ (bytes_eq_shortest h).symm)
  · exact Nat.le_of_lt (length_shortest_lt h)

/-- A command byte tells how the length of a push is written, if it is not an opcode. -/
inductive LengthForm (byte : UInt8) : Bytes → Option Nat → Prop
  | direct : 1 ≤ byte.toNat ∧ byte.toNat ≤ 75 → LengthForm byte [] (some byte.toNat)
  | oneByte {bs : Bytes} : byte.toNat = 76 → bs.length = 1 → LengthForm byte bs (some bs.toNatLE)
  | twoBytes {bs : Bytes} : byte.toNat = 77 → bs.length = 2 → LengthForm byte bs (some bs.toNatLE)
  | opcode : byte.toNat = 0 ∨ 77 < byte.toNat → LengthForm byte [] none

theorem reads_pushLength (byte : UInt8) :
    (Command.readPushLength byte).Reads (LengthForm byte) := by
  have hdirect : 1 ≤ byte ∧ byte ≤ 75 ↔ 1 ≤ byte.toNat ∧ byte.toNat ≤ 75 := by
    rw [UInt8.le_iff_toNat_le, UInt8.le_iff_toNat_le]
    exact Iff.rfl
  have hone : byte = 76 ↔ byte.toNat = 76 := UInt8.toNat_inj.symm
  have htwo : byte = 77 ↔ byte.toNat = 77 := UInt8.toNat_inj.symm
  unfold Command.readPushLength
  simp only [hdirect, hone, htwo]
  split
  next h =>
    refine (Parser.Reads.pure _).congr fun bs n => ⟨?_, fun hform => ?_⟩
    · intro h
      obtain ⟨rfl, rfl⟩ := h
      exact .direct h
    · cases hform with
      | direct => exact ⟨rfl, rfl⟩
      | oneByte | twoBytes | opcode => omega
  next hsmall =>
    split
    next h =>
      refine (Reader.reads_nat 1).map.congr fun bs n => ⟨?_, fun hform => ?_⟩
      · intro h
        obtain ⟨_, ⟨hlen, rfl⟩, rfl⟩ := h
        exact .oneByte h hlen
      · cases hform with
        | oneByte _ hlen => exact ⟨_, ⟨hlen, rfl⟩, rfl⟩
        | direct | twoBytes | opcode => omega
    next hnotOne =>
      split
      next h =>
        refine (Reader.reads_nat 2).map.congr fun bs n => ⟨?_, fun hform => ?_⟩
        · intro h
          obtain ⟨_, ⟨hlen, rfl⟩, rfl⟩ := h
          exact .twoBytes h hlen
        · cases hform with
          | twoBytes _ hlen => exact ⟨_, ⟨hlen, rfl⟩, rfl⟩
          | direct | oneByte | opcode => omega
      next hnotTwo =>
        refine (Parser.Reads.pure _).congr fun bs n => ⟨?_, fun hform => ?_⟩
        · intro h
          obtain ⟨rfl, rfl⟩ := h
          exact .opcode (by omega)
        · cases hform with
          | opcode => exact ⟨rfl, rfl⟩
          | direct | oneByte | twoBytes => omega

/-- What follows the length of a push, or an opcode. -/
def Operand (byte : UInt8) (n : Option Nat) (bs : Bytes) (c : Command) : Prop :=
  match n with
  | none => bs = [] ∧ c = .op ⟨byte⟩
  | some n => n ≤ maxElementSize ∧ bs.length = n ∧ c = .data bs

theorem reads_data (n : Nat) :
    (do
      if n > maxElementSize then throw (.tooLong n)
      return .data (← Reader.bytes n) : Parser ScriptError Command).Reads fun bs c =>
        n ≤ maxElementSize ∧ bs.length = n ∧ c = .data bs := by
  split
  next h =>
    refine (Parser.Reads.throw_bind _ _).congr fun bs c => ?_
    constructor
    · exact False.elim
    · intro hall
      have hle := hall.1
      omega
  next h =>
    refine (Reader.reads_bytes n).liftScript.map.congr fun bs c => ?_
    constructor
    · intro h
      obtain ⟨_, ⟨rfl, hlen⟩, rfl⟩ := h
      exact ⟨by omega, hlen, rfl⟩
    · intro h
      obtain ⟨_, hlen, rfl⟩ := h
      exact ⟨bs, ⟨rfl, hlen⟩, rfl⟩

theorem exists_wire {byte : UInt8} {es fs : Bytes} {n : Option Nat} {c : Command}
    (hlength : LengthForm byte es n) (hoperand : Operand byte n fs c) :
    ∃ w : WireCommand, w.bytes = byte :: (es ++ fs) ∧ w.command = c := by
  cases hlength with
  | direct h =>
    obtain ⟨_, hlen, rfl⟩ := hoperand
    refine ⟨.direct fs (by omega), ?_, rfl⟩
    simp [bytes, hlen]
  | oneByte h hes =>
    obtain ⟨_, hlen, rfl⟩ := hoperand
    have hlt := Bytes.toNatLE_lt es
    have hdigits := Bytes.ofNatLE_toNatLE es
    rw [hes] at hlt hdigits
    rw [← hlen] at hdigits
    have hbyte : byte = 76 := UInt8.toNat_inj.mp h
    refine ⟨.oneByte fs (by omega), ?_, rfl⟩
    rw [hbyte]
    exact congrArg (fun digits => 76 :: (digits ++ fs)) hdigits
  | twoBytes h hes =>
    obtain ⟨hmax, hlen, rfl⟩ := hoperand
    have hdigits := Bytes.ofNatLE_toNatLE es
    rw [hes, ← hlen] at hdigits
    have hbyte : byte = 77 := UInt8.toNat_inj.mp h
    refine ⟨.twoBytes fs (by omega), ?_, rfl⟩
    rw [hbyte]
    exact congrArg (fun digits => 77 :: (digits ++ fs)) hdigits
  | opcode h =>
    obtain ⟨rfl, rfl⟩ := hoperand
    exact ⟨.op byte h, rfl, rfl⟩

theorem exists_form (w : WireCommand) : ∃ byte es n fs, w.bytes = byte :: (es ++ fs) ∧
    LengthForm byte es n ∧ Operand byte n fs w.command := by
  cases w with
  | op code h => exact ⟨code, [], none, [], rfl, .opcode h, rfl, rfl⟩
  | direct bs h =>
    have hbyte : (UInt8.ofNat bs.length).toNat = bs.length := by
      rw [UInt8.toNat_ofNat']
      omega
    refine ⟨_, [], _, bs, rfl, .direct (by omega), ?_, hbyte.symm, rfl⟩
    unfold maxElementSize
    omega
  | oneByte bs h =>
    have hlt : bs.length < 256 ^ 1 := by omega
    obtain ⟨hlen, hvalue⟩ := (Bytes.eq_ofNatLE_iff hlt).mp rfl
    refine ⟨76, Bytes.ofNatLE 1 bs.length, _, bs, rfl, .oneByte rfl hlen, ?_, hvalue.symm, rfl⟩
    unfold maxElementSize
    omega
  | twoBytes bs h =>
    have hlt : bs.length < 256 ^ 2 := by
      unfold maxElementSize at h
      omega
    obtain ⟨hlen, hvalue⟩ := (Bytes.eq_ofNatLE_iff hlt).mp rfl
    refine ⟨77, Bytes.ofNatLE 2 bs.length, _, bs, rfl, .twoBytes rfl hlen, ?_, hvalue.symm, rfl⟩
    rw [hvalue]
    exact h

theorem reads_command :
    Command.read.Reads fun bs c => ∃ w : WireCommand, w.bytes = bs ∧ w.command = c := by
  have hoperand : ∀ byte n, (match n with
      | none => pure (.op ⟨byte⟩)
      | some n => do
        if n > maxElementSize then throw (.tooLong n)
        return .data (← Reader.bytes n) : Parser ScriptError Command).Reads (Operand byte n) := by
    intro byte n
    cases n with
    | none => exact Parser.Reads.pure _
    | some n => exact reads_data n
  refine (Reader.reads_uint8.liftScript.bind fun _ byte _ =>
    (reads_pushLength byte).liftScript.bind fun _ n _ => hoperand byte n).congr fun bs c => ?_
  constructor
  · intro h
    obtain ⟨_, byte, _, rfl, rfl, es, n, fs, rfl, hlength, hread⟩ := h
    obtain ⟨w, hbytes, hcommand⟩ := exists_wire hlength hread
    exact ⟨w, hbytes, hcommand⟩
  · intro h
    obtain ⟨w, rfl, rfl⟩ := h
    obtain ⟨byte, es, n, fs, hbytes, hlength, hread⟩ := w.exists_form
    exact ⟨[byte], byte, es ++ fs, hbytes, rfl, es, n, fs, rfl, hlength, hread⟩

end WireCommand

/-- A script with the forms in which its commands are written. -/
abbrev WireScript := List WireCommand

namespace WireScript

def script (ws : WireScript) : Script :=
  ws.map WireCommand.command

def body (ws : WireScript) : Bytes :=
  ws.flatMap WireCommand.bytes

def shortest (ws : WireScript) : Bytes :=
  ws.flatMap WireCommand.shortest

def IsShortest (ws : WireScript) : Prop :=
  ∀ w ∈ ws, w.IsShortest

@[simp] theorem body_cons (w : WireCommand) (ws : WireScript) :
    body (w :: ws) = w.bytes ++ body ws := rfl

@[simp] theorem shortest_cons (w : WireCommand) (ws : WireScript) :
    shortest (w :: ws) = w.shortest ++ shortest ws := rfl

theorem length_shortest_le (ws : WireScript) : ws.shortest.length ≤ ws.body.length := by
  induction ws with
  | nil => exact Nat.le_refl 0
  | cons w ws ih =>
    have hw := w.length_shortest_le
    simp only [body_cons, shortest_cons, List.length_append]
    omega

/-- The shortest forms give the body only if it is written in them: a form that is not the shortest
takes more bytes, and no other form makes up for them. -/
theorem shortest_eq_body_iff {ws : WireScript} : ws.shortest = ws.body ↔ ws.IsShortest := by
  induction ws with
  | nil => simp [shortest, body, IsShortest]
  | cons w ws ih =>
    have hcons : IsShortest (w :: ws) ↔ w.IsShortest ∧ IsShortest ws := List.forall_mem_cons
    rw [hcons, ← ih, body_cons, shortest_cons]
    constructor
    · intro h
      have hw := w.length_shortest_le
      have hws := length_shortest_le ws
      have hlen := congrArg List.length h
      simp only [List.length_append] at hlen
      -- Neither part can be longer in its shortest form, so the parts are equal one by one.
      obtain ⟨hfirst, hrest⟩ := List.append_inj h (by omega)
      refine ⟨?_, hrest⟩
      by_contra hne
      have hlt := WireCommand.length_shortest_lt hne
      rw [hfirst] at hlt
      exact Nat.lt_irrefl _ hlt
    · intro h
      rw [WireCommand.bytes_eq_shortest h.1, h.2]

end WireScript

namespace Script

theorem readCommands_nil_iff {rounds position : Nat} {r' : Reader} {s : Script} :
    readCommands rounds ⟨position, []⟩ = .ok (s, r') ↔
      ∃ ws : WireScript, ws.body = [] ∧ ws.script = s ∧ r' = ⟨position, []⟩ := by
  have hread : readCommands rounds ⟨position, []⟩ = .ok ([], ⟨position, []⟩) := by
    cases rounds <;> rfl
  rw [hread]
  constructor
  · intro h
    cases Except.ok.inj h
    exact ⟨[], rfl, rfl, rfl⟩
  · intro h
    obtain ⟨ws, hws, rfl, rfl⟩ := h
    cases ws with
    | nil => rfl
    | cons w ws => exact absurd (List.append_eq_nil_iff.mp hws).1 w.bytes_ne_nil

theorem readCommands_cons_iff {rounds position : Nat} {b : UInt8} {body : Bytes} {r' : Reader}
    {s : Script} : readCommands (rounds + 1) ⟨position, b :: body⟩ = .ok (s, r') ↔
      ∃ (w : WireCommand) (rest : Bytes) (s' : Script), b :: body = w.bytes ++ rest ∧
        readCommands rounds ⟨position + w.bytes.length, rest⟩ = .ok (s', r') ∧
        s = w.command :: s' := by
  show (do
    let c ← Command.read
    let cs ← readCommands rounds
    return c :: cs : Parser ScriptError Script) ⟨position, b :: body⟩ = .ok (s, r') ↔ _
  simp only [Parser.bind_eq_ok_iff]
  constructor
  · intro h
    obtain ⟨c, ⟨position', rest⟩, hc, s', r₂, hcs, hpure⟩ := h
    obtain ⟨_, ⟨w, rfl, rfl⟩, hrest, hposition⟩ := (WireCommand.reads_command _ _ _).mp hc
    simp only at hrest hposition
    subst hposition
    cases Except.ok.inj hpure
    exact ⟨w, rest, s', hrest, hcs, rfl⟩
  · intro h
    obtain ⟨w, rest, s', hrest, hcs, rfl⟩ := h
    have hc : Command.read ⟨position, b :: body⟩ =
        .ok (w.command, ⟨position + w.bytes.length, rest⟩) :=
      (WireCommand.reads_command _ _ _).mpr ⟨w.bytes, ⟨w, rfl, rfl⟩, hrest, rfl⟩
    exact ⟨_, _, hc, _, _, hcs, rfl⟩

theorem readCommands_eq_ok_iff {rounds position : Nat} {body : Bytes} {r' : Reader} {s : Script}
    (hrounds : body.length ≤ rounds) : readCommands rounds ⟨position, body⟩ = .ok (s, r') ↔
      ∃ ws : WireScript, ws.body = body ∧ ws.script = s ∧ r' = ⟨position + body.length, []⟩ := by
  induction rounds generalizing position body s with
  | zero =>
    obtain rfl := List.length_eq_zero_iff.mp (Nat.le_zero.mp hrounds)
    exact readCommands_nil_iff
  | succ rounds ih =>
    cases body with
    | nil => exact readCommands_nil_iff
    | cons b body =>
      -- A command takes at least one byte, so the rounds that are left last for what it leaves.
      have hshorter : ∀ {w : WireCommand} {rest : Bytes}, b :: body = w.bytes ++ rest →
          rest.length ≤ rounds := by
        intro w rest h
        have hpos := List.length_pos_iff.mpr w.bytes_ne_nil
        have hlen := congrArg List.length h
        rw [List.length_append] at hlen
        omega
      rw [readCommands_cons_iff]
      constructor
      · intro h
        obtain ⟨w, rest, s', hbody, hcs, rfl⟩ := h
        obtain ⟨ws, rfl, rfl, rfl⟩ := (ih (hshorter hbody)).mp hcs
        refine ⟨w :: ws, hbody.symm, rfl, ?_⟩
        rw [hbody, List.length_append, Nat.add_assoc]
      · intro h
        obtain ⟨ws, hbody, rfl, rfl⟩ := h
        cases ws with
        | nil => simp [WireScript.body] at hbody
        | cons w ws =>
          rw [WireScript.body_cons] at hbody
          refine ⟨w, WireScript.body ws, WireScript.script ws, hbody.symm, ?_, rfl⟩
          refine (ih (hshorter hbody.symm)).mpr ⟨ws, rfl, rfl, ?_⟩
          rw [← hbody, List.length_append, Nat.add_assoc]

/-- A body reads as a script just if it is written in commands of that script. -/
theorem ofBody_eq_ok_iff {body : Bytes} {s : Script} :
    ofBody body = .ok s ↔ ∃ ws : WireScript, ws.body = body ∧ ws.script = s := by
  unfold ofBody
  constructor
  · intro h
    cases hr : readCommands body.length (Reader.ofBytes body) with
    | error e => simp [hr, Except.map] at h
    | ok x =>
      obtain ⟨s', r'⟩ := x
      obtain ⟨ws, hbody, hs, _⟩ := (readCommands_eq_ok_iff (Nat.le_refl body.length)).mp hr
      rw [hr] at h
      cases Except.ok.inj h
      exact ⟨ws, hbody, hs⟩
  · intro h
    obtain ⟨ws, hbody, hs⟩ := h
    have hr : readCommands body.length (Reader.ofBytes body) = .ok (s, _) :=
      (readCommands_eq_ok_iff (Nat.le_refl body.length)).mpr ⟨ws, hbody, hs, rfl⟩
    exact congrArg (Except.map Prod.fst) hr

theorem body_script (ws : WireScript) : ws.script.body = .ok ws.shortest := by
  induction ws with
  | nil => rfl
  | cons w ws ih =>
    show (do
      let front ← w.command.encode
      let back ← Script.body (WireScript.script ws)
      return front ++ back) = _
    rw [w.encode_command, ih]
    rfl

end Script

theorem WireScript.bytes_script (ws : WireScript) :
    ws.script.bytes = .ok (Varint.lengthPrefixed ws.shortest) := by
  simp [Script.bytes, Script.body_script, bind, Except.bind, pure, Except.pure]

namespace Script

/-- A script is written on the wire in certain forms, and its length can be written in front. -/
structure Written (s : Script) (ws : WireScript) : Prop where
  script_eq : ws.script = s
  length_lt : ws.body.length < UInt64.size

theorem ofDeclaredBody_eq_ok_iff {body : Bytes} {s : Script} :
    ofDeclaredBody body = .ok s ↔ ∃ ws : WireScript, ws.body = body ∧ ws.script = s := by
  rw [← ofBody_eq_ok_iff, ofDeclaredBody]
  cases ofBody body <;> simp [Except.mapError]

theorem reads_read : read.Reads fun bs s =>
    ∃ ws : WireScript, s.Written ws ∧ bs = Varint.lengthPrefixed ws.body := by
  refine (Varint.reads_read.liftScript.bind fun _ declared _ =>
    (Reader.reads_bytes declared).liftScript.bind fun _ body _ =>
      Parser.Reads.ofExcept (ofDeclaredBody body)).congr fun bs s => ?_
  constructor
  · intro h
    obtain ⟨_, declared, _, rfl, ⟨hlt, rfl⟩, _, body, _, rfl, ⟨rfl, rfl⟩, rfl, hbody⟩ := h
    obtain ⟨ws, rfl, hs⟩ := ofDeclaredBody_eq_ok_iff.mp hbody
    exact ⟨ws, ⟨hs, hlt⟩, by simp [Varint.lengthPrefixed]⟩
  · intro h
    obtain ⟨ws, ⟨rfl, hlt⟩, rfl⟩ := h
    exact ⟨_, _, _, rfl, ⟨hlt, rfl⟩, _, _, [], (List.append_nil _).symm, ⟨rfl, rfl⟩, rfl,
      ofDeclaredBody_eq_ok_iff.mpr ⟨ws, rfl, rfl⟩⟩

end Script

end BitcoinSpend

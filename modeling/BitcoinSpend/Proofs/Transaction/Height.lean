import BitcoinSpend.Proofs.Script.MinimalNumber
import BitcoinSpend.Proofs.Transaction.RoundTrip
import BitcoinSpend.Transaction.Coinbase

namespace BitcoinSpend

namespace Number

theorem toNatLE_withSign_false (ds : Bytes) :
    Bytes.toNatLE (withSign false ds) = Bytes.toNatLE ds := by
  fun_induction withSign false ds with
  | case1 => rfl
  | case2 b h => rfl
  | case3 b h => simp [Bytes.toNatLE]
  | case4 b bs h ih => rw [Bytes.toNatLE, Bytes.toNatLE, ih]

/-- A number that is not negative is the one that its bytes spell without regard to a sign. -/
theorem toNatLE_encode (n : Nat) : Bytes.toNatLE (encode n) = n := by
  have hsign : ¬(n : Int) < 0 := by omega
  rw [encode, decide_eq_false hsign, toNatLE_withSign_false, Int.natAbs_natCast, toNatLE_magnitude]

end Number

namespace Transaction

/-- The push of a height: small numbers have opcodes of their own. -/
def heightPush (h : Nat) : Command :=
  if h = 0 then .op .zero
  else if h ≤ 16 then .op ⟨Opcode.pushOne.byte + UInt8.ofNat (h - 1)⟩
  else .data (Number.encode h)

theorem toNat_pushOne_add {h : Nat} (hpos : h ≠ 0) (hsmall : h ≤ 16) :
    (Opcode.pushOne.byte + UInt8.ofNat (h - 1)).toNat = 0x50 + h := by
  have hone : Opcode.pushOne.byte.toNat = 0x51 := rfl
  rw [UInt8.toNat_add, UInt8.toNat_ofNat', hone]
  omega

theorem length_encode_height {h : Nat} (hh : h < 2 ^ 63) : (Number.encode h).length ≤ 8 := by
  rw [Number.length_encode_le_iff, Int.natAbs_natCast]
  omega

theorem heightOf?_heightPush {h : Nat} (hh : h < 2 ^ 63) (tail : Script) :
    heightOf? (heightPush h :: tail) = some h := by
  unfold heightPush
  by_cases hpos : h = 0
  · subst hpos
    rfl
  by_cases hsmall : h ≤ 16
  · have hbyte := toNat_pushOne_add hpos hsmall
    have hone : Opcode.pushOne.byte.toNat = 0x51 := rfl
    have hsixteen : Opcode.pushSixteen.byte.toNat = 0x60 := rfl
    rw [if_neg hpos, if_pos hsmall]
    simp only [heightOf?, UInt8.le_iff_toNat_le, hbyte, hone, hsixteen]
    rw [if_neg, if_pos (by omega)]
    · exact congrArg some (by omega)
    · intro hzero
      have hnull : (0 : UInt8).toNat = 0x50 + h := by
        rw [← hbyte]
        exact congrArg (fun code => code.byte.toNat) hzero.symm
      have hnull' : (0 : UInt8).toNat = 0 := rfl
      omega
  · rw [if_neg hpos, if_neg hsmall]
    simp only [heightOf?]
    rw [if_pos (length_encode_height hh), Number.toNatLE_encode]

theorem isCanonical_heightPush {h : Nat} (hh : h < 2 ^ 63) : (heightPush h).IsCanonical := by
  unfold heightPush
  by_cases hpos : h = 0
  · subst hpos
    exact Or.inl rfl
  by_cases hsmall : h ≤ 16
  · have hbyte := toNat_pushOne_add hpos hsmall
    rw [if_neg hpos, if_pos hsmall]
    exact Or.inr (by show 78 ≤ (Opcode.pushOne.byte + UInt8.ofNat (h - 1)).toNat; omega)
  · rw [if_neg hpos, if_neg hsmall]
    have hmax : 8 ≤ maxElementSize := by decide
    have hlen := length_encode_height hh
    refine ⟨Nat.one_le_iff_ne_zero.mpr fun hnil => ?_, by omega⟩
    have hvalue := Number.toNatLE_encode h
    rw [List.length_eq_zero_iff.mp hnil] at hvalue
    exact hpos hvalue.symm

/-- What the bytes of a transaction tell of it: they hold its witnesses only in the layout that is
made for them, and do not name a network. -/
def asWritten (tx : Transaction) (testnet : Bool) : Transaction :=
  { tx with testnet, inputs := if tx.segwit then tx.inputs else tx.inputs.map Input.bare }

variable {tx : Transaction}

theorem inputs_asWritten (tx : Transaction) (testnet : Bool) :
    (tx.asWritten testnet).inputs = tx.inputs ∨
      (tx.asWritten testnet).inputs = tx.inputs.map Input.bare := by
  unfold asWritten
  split
  · exact Or.inl rfl
  · exact Or.inr rfl

theorem scripts_asWritten (tx : Transaction) (testnet : Bool) :
    (tx.asWritten testnet).scripts = tx.scripts := by
  unfold scripts
  rcases inputs_asWritten tx testnet with h | h
  · rw [h]
    rfl
  · rw [h, List.map_map]
    rfl

theorem bytes_asWritten (tx : Transaction) (testnet : Bool) :
    (tx.asWritten testnet).bytes = tx.bytes := by
  cases hsegwit : tx.segwit with
  | true => simp [bytes, segwitBytes, inputsAndOutputs, asWritten, hsegwit]
  | false =>
    have hjoin : joinBytes Input.bytes (tx.inputs.map Input.bare) =
        joinBytes Input.bytes tx.inputs := joinBytes_map Input.bytes Input.bare tx.inputs
    simp [bytes, legacyBytes, inputsAndOutputs, asWritten, hsegwit, hjoin]

/-- What is read of the bytes of a transaction, of which just the witnesses can be lost. -/
theorem exists_bytes_asWritten (hinputs : tx.inputs ≠ [])
    (hscripts : ∀ s ∈ tx.scripts, ∀ c ∈ s, c.IsCanonical) : ∃ b, tx.bytes = .ok b ∧
      (b.length < UInt64.size → ∀ testnet, ofBytes b testnet = .ok (tx.asWritten testnet)) := by
  obtain ⟨ins, outs, hins, houts, _⟩ := exists_shortest_iff.mp hscripts
  have hb := bytes_eq_layout hins houts
  refine ⟨_, hb, fun hlen testnet => ?_⟩
  rw [← bytes_asWritten tx testnet] at hb
  refine (ofBytes_bytes_iff hb hlen).mpr ⟨Or.inr ?_, ?_, ?_⟩
  · rcases inputs_asWritten tx testnet with h | h
    · rwa [h]
    · rw [h]
      exact fun hnil => hinputs (List.map_eq_nil_iff.mp hnil)
  · cases hsegwit : tx.segwit with
    | true => exact Or.inl hsegwit
    | false =>
      refine Or.inr fun i hi => ?_
      rw [asWritten, hsegwit] at hi
      obtain ⟨j, _, rfl⟩ := List.mem_map.mp hi
      rfl
  · rwa [scripts_asWritten]

theorem coinbaseHeight?_of_script {i : Input} {h : Nat} {tail : Script} (hinputs : tx.inputs = [i])
    (hnull : i.outPoint = ⟨TxId.zero, 0xffffffff⟩) (hh : h < 2 ^ 63)
    (hscript : i.script = heightPush h :: tail) : tx.coinbaseHeight? = some h := by
  have hcoinbase : tx.isCoinbase = true := by simp [isCoinbase, hinputs, hnull]
  rw [coinbaseHeight?, if_pos hcoinbase, hinputs]
  show heightOf? i.script = some h
  rw [hscript, heightOf?_heightPush hh]

/-- A coinbase that starts with the push of a height commits to it, and if its other commands are
ones that reading gives, so does what is read of its bytes. Heights are below `2 ^ 63`, and bytes
that a machine holds are fewer than `2 ^ 64`, as their counts and lengths are words. -/
theorem height_read_back {i : Input} {h : Nat} {tail : Script} (hinputs : tx.inputs = [i])
    (hnull : i.outPoint = ⟨TxId.zero, 0xffffffff⟩) (hh : h < 2 ^ 63)
    (hscript : i.script = heightPush h :: tail) :
    tx.coinbaseHeight? = some h ∧
      ((∀ c ∈ tail, c.IsCanonical) → (∀ o ∈ tx.outputs, ∀ c ∈ o.script, c.IsCanonical) →
        ∃ b, tx.bytes = .ok b ∧ (b.length < UInt64.size → ∀ testnet, ∃ tx',
          ofBytes b testnet = .ok tx' ∧ tx'.coinbaseHeight? = some h)) := by
  refine ⟨coinbaseHeight?_of_script hinputs hnull hh hscript, fun htail houtputs => ?_⟩
  have hscripts : ∀ s ∈ tx.scripts, ∀ c ∈ s, c.IsCanonical := by
    simp only [scripts, hinputs, List.forall_mem_append, List.forall_mem_map,
      List.forall_mem_singleton, hscript, List.forall_mem_cons]
    exact ⟨⟨isCanonical_heightPush hh, htail⟩, houtputs⟩
  obtain ⟨b, hb, hread⟩ := exists_bytes_asWritten (by simp [hinputs]) hscripts
  refine ⟨b, hb, fun hlen testnet => ⟨_, hread hlen testnet, ?_⟩⟩
  rcases inputs_asWritten tx testnet with h | h
  · exact coinbaseHeight?_of_script (h.trans hinputs) hnull hh hscript
  · rw [hinputs] at h
    exact coinbaseHeight?_of_script (i := i.bare) h hnull hh hscript

/-- The input of a coinbase, with a height whose top bit takes another byte. -/
def inputWithTopBit : Input :=
  ⟨⟨TxId.zero, 0xffffffff⟩, [.data [0x00, 0x80, 0x00], .data [7]], 0xffffffff, [[1]]⟩

/-- The witness of the input is not written. -/
def coinbaseWithTopBit : Transaction :=
  ⟨1, [inputWithTopBit], [⟨5000, [.op .pushOne]⟩], 0, false, false⟩

theorem coinbaseWithTopBit_read_back : (32768 : Nat) < 2 ^ 63 ∧
    inputWithTopBit.script = heightPush 32768 :: [.data [7]] ∧
    coinbaseWithTopBit.coinbaseHeight? = some 32768 ∧
    ∃ b, coinbaseWithTopBit.bytes = .ok b ∧ ∃ tx', ofBytes b true = .ok tx' ∧
      tx'.coinbaseHeight? = some 32768 := by
  have hh : (32768 : Nat) < 2 ^ 63 := by decide
  have hinputs : coinbaseWithTopBit.inputs = [inputWithTopBit] := rfl
  have hscript : inputWithTopBit.script = heightPush 32768 :: [.data [7]] := by
    simp [inputWithTopBit, heightPush, Number.encode, Number.magnitude, Number.withSign]
  obtain ⟨hheight, hread⟩ := height_read_back hinputs rfl hh hscript
  obtain ⟨b, hb, htx⟩ := hread (by decide) (by decide)
  have hlen : coinbaseWithTopBit.bytes.map List.length = .ok 67 := by decide +kernel
  rw [hb] at hlen
  have hlen : b.length = 67 := Except.ok.inj hlen
  exact ⟨hh, hscript, hheight, b, hb, htx (by rw [hlen]; decide) true⟩

end Transaction

end BitcoinSpend

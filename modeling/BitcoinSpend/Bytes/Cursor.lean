import BitcoinSpend.Bytes.Varint

namespace BitcoinSpend

/-- A byte string, and how many of its bytes were read. -/
structure Cursor where
  data : Bytes
  position : Nat
deriving DecidableEq, Repr

abbrev CursorM (α : Type) := EStateM CodecError Cursor α

namespace Cursor

def ofBytes (data : Bytes) : Cursor :=
  ⟨data, 0⟩

def remaining (c : Cursor) : Nat :=
  c.data.length - c.position

/-- The bytes not yet read. -/
def rest (c : Cursor) : Bytes :=
  c.data.drop c.position

@[simp] theorem length_rest (c : Cursor) : c.rest.length = c.remaining :=
  List.length_drop

/-- The cursor behind the next `n` bytes. -/
def skip (c : Cursor) (n : Nat) : Cursor :=
  { c with position := c.position + n }

/-- The next `n` bytes. -/
def bytes (n : Nat) : CursorM Bytes := fun c =>
  if c.remaining < n then .error (.unexpectedEnd c.position n c.remaining) c
  else .ok (c.rest.take n) (c.skip n)

/-- The next `n` bytes, with their number in the type. -/
def fixed (n : Nat) : CursorM (FixedBytes n) := fun c =>
  if h : c.remaining < n then .error (.unexpectedEnd c.position n c.remaining) c
  else .ok ⟨c.rest.take n, by simp; omega⟩ (c.skip n)

/-- A word that is made of the number in the next `width` bytes, least significant first. -/
def word {α : Type} (width : Nat) (make : Nat → α) : CursorM α := do
  let bs ← bytes width
  return make bs.toNatLE

/-- A variable-length integer. The position moves only when all of it was read. -/
def varint : CursorM Nat := fun c =>
  match Varint.read ⟨c.position, c.rest⟩ with
  | .ok (n, r) => .ok n { c with position := r.position }
  | .error e => .error e c

/-- The byte that lies `offset` ahead. The place to look at is a word of 64 bits, so a sum that
leads out of its range wraps around. -/
def peek (offset : Nat) : CursorM (Option UInt8) := fun c =>
  .ok c.data[(c.position + offset) % UInt64.size]? c

/-- A read, or a look ahead. -/
inductive Call where
  | uint8
  | uint16
  | uint32
  | int32
  | int64
  | varint
  | bytes (n : Nat)
  | fixed (n : Nat)
  | peek (offset : Nat)
deriving DecidableEq, Repr

inductive Answer where
  | uint8 (b : UInt8)
  | uint16 (w : UInt16)
  | uint32 (w : UInt32)
  | int32 (i : Int32)
  | int64 (i : Int64)
  | varint (n : Nat)
  | bytes (bs : Bytes)
  | ahead (b : Option UInt8)
deriving DecidableEq

namespace Call

def run : Call → CursorM Answer
  | uint8 => Answer.uint8 <$> word 1 UInt8.ofNat
  | uint16 => Answer.uint16 <$> word 2 UInt16.ofNat
  | uint32 => Answer.uint32 <$> word 4 UInt32.ofNat
  | int32 => Answer.int32 <$> word 4 fun n => (UInt32.ofNat n).toInt32
  | int64 => Answer.int64 <$> word 8 fun n => (UInt64.ofNat n).toInt64
  | varint => Answer.varint <$> Cursor.varint
  | bytes n => Answer.bytes <$> Cursor.bytes n
  | fixed n => (fun b => Answer.bytes b.bytes) <$> Cursor.fixed n
  | peek offset => Answer.ahead <$> Cursor.peek offset

/-- Where a call leaves the cursor, whether it succeeds or not. -/
def leaves (call : Call) (c : Cursor) : Cursor :=
  match call.run c with
  | .ok _ c' => c'
  | .error _ c' => c'

end Call

/-- The cursor after some calls, which are made one after the other. -/
def after (c : Cursor) : List Call → Cursor
  | [] => c
  | call :: calls => (call.leaves c).after calls

end Cursor

end BitcoinSpend

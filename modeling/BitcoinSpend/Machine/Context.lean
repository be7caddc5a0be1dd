import BitcoinSpend.Curve.Scheme
import BitcoinSpend.Machine.LockTime

namespace BitcoinSpend

/-- Without a lock time the lock time opcodes do nothing. -/
structure Context where
  scheme : SignatureScheme
  digest : Digest
  witness : List Bytes := []
  lockTime : Option LockTime := none

namespace Context

/-- Reads a signature as scripts hold it, with a last byte that names the hash type. -/
def parseSignature (ctx : Context) (sig : Bytes) : Option ctx.scheme.Signature :=
  if sig.isEmpty then none else ctx.scheme.parseSignature sig.dropLast

/-- Tells whether a signature and a key can be read and the signature verifies for the key. -/
def accepts (ctx : Context) (sig key : Bytes) : Bool :=
  match ctx.parseSignature sig, ctx.scheme.parsePoint key with
  | some s, some p => ctx.scheme.verify p ctx.digest s
  | _, _ => false

end Context

/-- Takes out one element and puts the last one in its place. -/
def swapRemove {α : Type} (xs : List α) (i : Nat) : List α :=
  match xs.getLast? with
  | some last => (xs.set i last).dropLast
  | none => []

namespace Context

/-- Tells whether every signature verifies for a point of its own. Each takes the first point that
is left and fits. -/
def matchAll (ctx : Context) : List ctx.scheme.Point → List Bytes → Bool
  | _, [] => true
  | points, sig :: sigs =>
    match ctx.parseSignature sig with
    | none => false
    | some s =>
      match points.findIdx? fun p => ctx.scheme.verify p ctx.digest s with
      | some i => ctx.matchAll (swapRemove points i) sigs
      | none => false

/-- Takes a key and a signature off the stack and checks them. -/
def checkSig (ctx : Context) : StackM Failure Bool := do
  let key ← Stack.pop
  let sig ← Stack.pop
  return ctx.accepts sig key

/-- The most keys that one opcode checks. -/
def maxKeys : Int := 20

/-- Takes counted keys, counted signatures and one more element off the stack and checks them. -/
def checkMultiSig (ctx : Context) : StackM Failure Bool := do
  let keyCount ← Stack.popNumber
  if keyCount < 0 ∨ maxKeys < keyCount then throw (.keyCount keyCount)
  let keys ← Stack.popMany keyCount.toNat
  let sigCount ← Stack.popNumber
  if sigCount < 0 ∨ keyCount < sigCount then throw (.signatureCount sigCount)
  let sigs ← Stack.popMany sigCount.toNat
  let _ ← Stack.pop
  return ctx.matchAll (keys.filterMap ctx.scheme.parsePoint) sigs

end Context

end BitcoinSpend

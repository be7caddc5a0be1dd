import BitcoinSpend.Address.Basic
import BitcoinSpend.Script.Codec

namespace BitcoinSpend

/-- What a locking script demands. -/
inductive Template where
  | nonstandard
  | keyHash (hash : FixedBytes 20)
  | scriptHash (hash : FixedBytes 20)
  | witnessKeyHash (hash : FixedBytes 20)
  | witnessScriptHash (hash : FixedBytes 32)
deriving DecidableEq

/-- Tells that a command pushes so many bytes. -/
def Command.pushes (length : Nat) : Command → Bool
  | .op _ => false
  | .data bs => bs.length = length

namespace Script

/-- Pays to the hash of a key. -/
def payToKeyHash (h : FixedBytes 20) : Script :=
  [.op .dup, .op .hash160, .data h.bytes, .op .equalVerify, .op .checkSig]

/-- Pays to the hash of a script. -/
def payToScriptHash (h : FixedBytes 20) : Script :=
  [.op .hash160, .data h.bytes, .op .equal]

/-- Pays to the hash of a key in the witness. -/
def payToWitnessKeyHash (h : FixedBytes 20) : Script :=
  [.op .zero, .data h.bytes]

/-- Pays to the hash of a script in the witness. -/
def payToWitnessScriptHash (h : FixedBytes 32) : Script :=
  [.op .zero, .data h.bytes]

/-- Tells that a script has the form that pays to the hash of a key. -/
def paysToKeyHash : Script → Bool
  | [a, b, h, c, d] =>
    a = .op .dup && b = .op .hash160 && h.pushes 20 && c = .op .equalVerify && d = .op .checkSig
  | _ => false

/-- Tells that a script has the form that pays to the hash of a script. -/
def paysToScriptHash : Script → Bool
  | [a, h, b] => a = .op .hash160 && h.pushes 20 && b = .op .equal
  | _ => false

/-- Tells that a script is a zero opcode and a push of so many bytes. -/
def paysToWitness (length : Nat) : Script → Bool
  | [version, program] => version = .op .zero && program.pushes length
  | _ => false

def paysToWitnessKeyHash : Script → Bool :=
  paysToWitness 20

def paysToWitnessScriptHash : Script → Bool :=
  paysToWitness 32

/-- The key hash that a script pays to. -/
def keyHash? : Script → Option (FixedBytes 20)
  | [.op a, .op b, .data h, .op c, .op d] =>
    if a = .dup ∧ b = .hash160 ∧ c = .equalVerify ∧ d = .checkSig then FixedBytes.ofBytes? 20 h
    else none
  | _ => none

/-- The script hash that a script pays to. -/
def scriptHash? : Script → Option (FixedBytes 20)
  | [.op a, .data h, .op b] =>
    if a = .hash160 ∧ b = .equal then FixedBytes.ofBytes? 20 h else none
  | _ => none

/-- The witness program of a script: a zero opcode and one data push. -/
def witnessProgram? : Script → Option Bytes
  | [.op version, .data program] => if version = .zero then some program else none
  | _ => none

def witnessKeyHash? (s : Script) : Option (FixedBytes 20) :=
  s.witnessProgram?.bind (FixedBytes.ofBytes? 20)

def witnessScriptHash? (s : Script) : Option (FixedBytes 32) :=
  s.witnessProgram?.bind (FixedBytes.ofBytes? 32)

/-- The template that a script has. -/
def template (s : Script) : Template :=
  match s.keyHash?, s.scriptHash?, s.witnessKeyHash?, s.witnessScriptHash? with
  | some h, _, _, _ => .keyHash h
  | none, some h, _, _ => .scriptHash h
  | none, none, some h, _ => .witnessKeyHash h
  | none, none, none, some h => .witnessScriptHash h
  | none, none, none, none => .nonstandard

/-- The template of a script, found by its form and then by what its push holds. -/
def templateOfForm (s : Script) : Template :=
  match s with
  | [_, _, .data hash, _, _] =>
    if s.paysToKeyHash then ((FixedBytes.ofBytes? 20 hash).map .keyHash).getD .nonstandard
    else .nonstandard
  | [_, .data hash, _] =>
    if s.paysToScriptHash then ((FixedBytes.ofBytes? 20 hash).map .scriptHash).getD .nonstandard
    else .nonstandard
  | [_, .data program] =>
    if s.paysToWitnessKeyHash then
      ((FixedBytes.ofBytes? 20 program).map .witnessKeyHash).getD .nonstandard
    else if s.paysToWitnessScriptHash then
      ((FixedBytes.ofBytes? 32 program).map .witnessScriptHash).getD .nonstandard
    else .nonstandard
  | _ => .nonstandard

end Script

namespace Template

def name : Template → String
  | .nonstandard => "nonstandard"
  | .keyHash _ => "pubkeyhash"
  | .scriptHash _ => "scripthash"
  | .witnessKeyHash _ => "witness_v0_keyhash"
  | .witnessScriptHash _ => "witness_v0_scripthash"

/-- The script that pays to what a template demands. -/
def script? : Template → Option Script
  | .nonstandard => none
  | .keyHash h => some (Script.payToKeyHash h)
  | .scriptHash h => some (Script.payToScriptHash h)
  | .witnessKeyHash h => some (Script.payToWitnessKeyHash h)
  | .witnessScriptHash h => some (Script.payToWitnessScriptHash h)

/-- The address of a template, which witness programs do not have. -/
def address? (testnet : Bool) : Template → Option String
  | .keyHash h => some (Address.ofKeyHash h testnet)
  | .scriptHash h => some (Address.ofScriptHash h testnet)
  | _ => none

end Template

end BitcoinSpend

import BitcoinSpend.Hash.Blocks

namespace BitcoinSpend

namespace Sha1

structure State where
  a : UInt32
  b : UInt32
  c : UInt32
  d : UInt32
  e : UInt32

def initial : State :=
  ⟨0x67452301, 0xefcdab89, 0x98badcfe, 0x10325476, 0xc3d2e1f0⟩

/-- What a round mixes from three words, and the constant it adds. -/
structure Stage where
  mix : UInt32 → UInt32 → UInt32 → UInt32
  constant : UInt32

def choice : Stage :=
  ⟨fun x y z => (x &&& y) ||| (~~~x &&& z), 0x5a827999⟩

def parity (constant : UInt32) : Stage :=
  ⟨fun x y z => x ^^^ y ^^^ z, constant⟩

def majority : Stage :=
  ⟨fun x y z => (x &&& y) ||| (x &&& z) ||| (y &&& z), 0x8f1bbcdc⟩

/-- The stage of each of the 80 rounds. -/
def stages : List Stage :=
  List.replicate 20 choice ++ List.replicate 20 (parity 0x6ed9eba1) ++
    List.replicate 20 majority ++ List.replicate 20 (parity 0xca62c1d6)

/-- The words of a window of sixteen, followed by the words that the schedule derives from them. -/
def schedule : Nat → List UInt32 → List UInt32
  | n + 1, w :: rest =>
    let next := Hash.rotateLeft (rest.getD 12 0 ^^^ rest.getD 7 0 ^^^ rest.getD 1 0 ^^^ w) 1
    w :: schedule n (rest ++ [next])
  | _, window => window

def round (s : State) (stage : Stage) (w : UInt32) : State :=
  let a := Hash.rotateLeft s.a 5 + stage.mix s.b s.c s.d + s.e + stage.constant + w
  ⟨a, s.a, Hash.rotateLeft s.b 30, s.c, s.d⟩

def compress (s : State) (block : Bytes) : State :=
  let words := schedule 64 (Hash.wordsBE block)
  let t := (stages.zip words).foldl (fun s (stage, w) => round s stage w) s
  ⟨s.a + t.a, s.b + t.b, s.c + t.c, s.d + t.d, s.e + t.e⟩

def State.bytes (s : State) : FixedBytes 20 where
  bytes := [s.a, s.b, s.c, s.d, s.e].flatMap fun w => Bytes.ofNatBE 4 w.toNat
  length_eq := by simp

def digest (message : Bytes) : FixedBytes 20 :=
  let length := Bytes.ofNatBE 8 (Hash.bitLength message)
  ((Hash.blocks (Hash.padded message length)).foldl compress initial).bytes

end Sha1

end BitcoinSpend

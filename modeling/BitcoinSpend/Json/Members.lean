import BitcoinSpend.Bytes.Hex

namespace BitcoinSpend

namespace Json

def isSpace (c : Char) : Bool :=
  c = ' ' || c = '\t' || c = '\n' || c = '\r'

def skipSpace (cs : List Char) : List Char :=
  cs.dropWhile isSpace

/-- The number that four hexadecimal digits stand for. -/
def unit? (a b c d : Char) : Option Nat :=
  [a, b, c, d].foldlM (fun n c =>
    if c.toNat < 128 then (Hex.value? (UInt8.ofNat c.toNat)).map fun v => 16 * n + v.toNat
    else none) 0

/-- The character that a letter behind a backslash stands for. -/
def unescape? (c : Char) : Option Char :=
  match c with
  | '"' => some '"'
  | '\\' => some '\\'
  | '/' => some '/'
  | 'b' => some '\x08'
  | 'f' => some '\x0c'
  | 'n' => some '\n'
  | 'r' => some '\r'
  | 't' => some '\t'
  | _ => none

def isHighSurrogate (n : Nat) : Bool :=
  0xd800 ≤ n && n ≤ 0xdbff

def isLowSurrogate (n : Nat) : Bool :=
  0xdc00 ≤ n && n ≤ 0xdfff

def ofSurrogates (high low : Nat) : Char :=
  Char.ofNat (0x10000 + (high - 0xd800) * 0x400 + (low - 0xdc00))

/-- Puts a character in front of what was read behind it. -/
def prepend (c : Char) (read : Option (List Char × List Char)) : Option (List Char × List Char) :=
  read.map fun (cs, rest) => (c :: cs, rest)

/-- Reads up to the closing quote. -/
def quotedBody? : List Char → Option (List Char × List Char)
  | [] => none
  | '"' :: rest => some ([], rest)
  | '\\' :: 'u' :: a :: b :: c :: d :: '\\' :: 'u' :: e :: f :: g :: h :: rest =>
    match unit? a b c d with
    | none => none
    | some n =>
      if isHighSurrogate n then
        match unit? e f g h with
        | none => none
        | some m => if isLowSurrogate m then prepend (ofSurrogates n m) (quotedBody? rest) else none
      else if isLowSurrogate n then none
      else prepend (Char.ofNat n) (quotedBody? ('\\' :: 'u' :: e :: f :: g :: h :: rest))
  | '\\' :: 'u' :: a :: b :: c :: d :: rest =>
    match unit? a b c d with
    | none => none
    | some n =>
      if isHighSurrogate n || isLowSurrogate n then none
      else prepend (Char.ofNat n) (quotedBody? rest)
  | '\\' :: c :: rest =>
    match unescape? c with
    | none => none
    | some c => prepend c (quotedBody? rest)
  | c :: rest => if c.toNat < 32 ∨ c = '\\' then none else prepend c (quotedBody? rest)

/-- Reads a text in quotes. -/
def string? : List Char → Option (String × List Char)
  | '"' :: rest => (quotedBody? rest).map fun (cs, rest) => (String.ofList cs, rest)
  | _ => none

/-- Reads a key and its value, which must be a text. -/
def member? (cs : List Char) : Option ((String × String) × List Char) := do
  let (key, rest) ← string? (skipSpace cs)
  match skipSpace rest with
  | ':' :: rest =>
    let (value, rest) ← string? (skipSpace rest)
    return ((key, value), skipSpace rest)
  | _ => none

/-- Reads at most so many members and the closing brace. -/
def members? : Nat → List Char → Option (List (String × String) × List Char)
  | 0, _ => none
  | bound + 1, cs => do
    let (m, rest) ← member? cs
    match rest with
    | '}' :: rest => return ([m], rest)
    | ',' :: rest =>
      let (ms, rest) ← members? bound rest
      return (m :: ms, rest)
    | _ => none

/-- Reads a whole text as an object of texts. -/
def readMembers? (text : String) : Option (List (String × String)) :=
  match skipSpace text.toList with
  | '{' :: rest =>
    match skipSpace rest with
    | '}' :: rest => if (skipSpace rest).isEmpty then some [] else none
    | rest =>
      match members? rest.length rest with
      | some (ms, rest) => if (skipSpace rest).isEmpty then some ms else none
      | none => none
  | _ => none

/-- Puts a member into its place in the order of keys, or in the place of one with the same key. -/
def insertMember (key value : String) : List (String × String) → List (String × String)
  | [] => [(key, value)]
  | (k, v) :: ms =>
    if key < k then (key, value) :: (k, v) :: ms
    else if key = k then (key, value) :: ms
    else (k, v) :: insertMember key value ms

/-- The members in the order of their keys; of those with the same key the last counts. -/
def sortMembers (ms : List (String × String)) : List (String × String) :=
  ms.foldl (fun acc (key, value) => insertMember key value acc) []

end Json

end BitcoinSpend

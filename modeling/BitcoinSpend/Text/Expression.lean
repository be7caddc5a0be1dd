import BitcoinSpend.Bytes.Hex
import BitcoinSpend.Text.Alphanumeric
import BitcoinSpend.Text.Blank

namespace BitcoinSpend

namespace Expression

/-- How an expression is read: whether letters stand for either case, whether it works by character
or by byte, and whether blanks and comments may stand between its parts. -/
structure Mode where
  eitherCase : Bool := false
  byCharacter : Bool := true
  spaced : Bool := false
deriving DecidableEq, Repr

/-- Drops blanks, and comments from a hash sign to the end of the line. -/
def dropBlanks (inComment : Bool) : List Char → List Char
  | [] => []
  | c :: cs =>
    if inComment then dropBlanks (c ≠ '\n') cs
    else if Text.isBlank c then dropBlanks false cs
    else if c = '#' then dropBlanks true cs
    else c :: cs

/-- What a part of an expression stands for. -/
inductive Atom where
  | char (c : Char)
  /-- A character given by two hexadecimal digits. -/
  | short (c : Char)
  /-- Digits, blanks or word characters, or all others. -/
  | kind (negated : Bool)
  | any
  | edge
  | wordEdge
deriving DecidableEq, Repr

def Atom.char? : Atom → Option Char
  | .char c => some c
  | .short c => some c
  | _ => none

def isAscii (c : Char) : Bool :=
  c.toNat < 128

namespace Mode

def skip (m : Mode) (cs : List Char) : List Char :=
  if m.spaced then dropBlanks false cs else cs

/-- The next character that is no blank; of a comment it is the first one. -/
def peek (m : Mode) (cs : List Char) : Option Char :=
  if m.spaced then
    match cs.dropWhile Text.isBlank with
    | '#' :: cs => (cs.dropWhile Text.isBlank).head?
    | cs => cs.head?
  else cs.head?

/-- By byte only ASCII and characters spelled out are matched, so that no character is cut. -/
def admits (m : Mode) : Atom → Bool
  | .char _ => !(m.eitherCase && m.byCharacter)
  | .short c => if m.byCharacter then !m.eitherCase else isAscii c
  | .kind negated => !m.byCharacter && !negated
  | .any => m.byCharacter
  | .edge => true
  | .wordEdge => !m.byCharacter

/-- A class has characters and kinds of them as members. -/
def admitsMember (m : Mode) : Atom → Bool
  | .char c => if m.byCharacter then !m.eitherCase else isAscii c
  | .short c => if m.byCharacter then !m.eitherCase else isAscii c
  | .kind negated => !m.byCharacter && !negated
  | _ => false

/-- A class that is known by its name. -/
def admitsNamed (m : Mode) (negated : Bool) : Bool :=
  if m.byCharacter then !m.eitherCase else !negated

/-- Flags before a dash are set, those behind it are cleared. -/
def withFlags (m : Mode) (flags : List Char) : Mode :=
  let value (flag : Char) (old : Bool) :=
    if (flags.takeWhile (· ≠ '-')).contains flag then true
    else if flags.contains flag then false
    else old
  { eitherCase := value 'i' m.eitherCase
    byCharacter := value 'u' m.byCharacter
    spaced := value 'x' m.spaced }

end Mode

/-- Reads hexadecimal digits, of which the given number is left. -/
def readCode (m : Mode) : Nat → Nat → List Char → Option (Char × List Char)
  | 0, code, cs => if code.isValidChar then some (Char.ofNat code, cs) else none
  | left + 1, code, cs =>
    match m.skip cs with
    | [] => none
    | c :: cs =>
      match if isAscii c then Hex.value? c.toNat.toUInt8 else none with
      | some digit => readCode m left (16 * code + digit.toNat) cs
      | none => none

/-- Reads what follows a backslash. Letters and digits without a meaning are refused. -/
def readEscape (m : Mode) : List Char → Option (Atom × List Char)
  | [] => none
  | c :: cs =>
    match c with
    | 'x' => (readCode m 2 0 cs).map fun (c, cs) => (.short c, cs)
    | 'u' => (readCode m 4 0 cs).map fun (c, cs) => (.char c, cs)
    | 'U' => (readCode m 8 0 cs).map fun (c, cs) => (.char c, cs)
    | 'd' | 's' | 'w' => some (.kind false, cs)
    | 'D' | 'S' | 'W' => some (.kind true, cs)
    | 'A' | 'z' => some (.edge, cs)
    | 'b' | 'B' | '<' | '>' => some (.wordEdge, cs)
    | 'a' => some (.char '\x07', cs)
    | 't' => some (.char '\t', cs)
    | 'n' => some (.char '\n', cs)
    | 'v' => some (.char '\x0b', cs)
    | 'f' => some (.char '\x0c', cs)
    | 'r' => some (.char '\r', cs)
    | c => if isAscii c && !c.isAlphanum then some (.char c, cs) else none

/-- What has been read behind an opening bracket. An item adds to the height of what encloses it;
branches are the heights of what stands before the last separator. -/
structure Part where
  branches : List Nat := []
  items : List Nat := []
  repeatable : Bool := false
deriving DecidableEq, Repr

/-- Several heights lie below a common one. -/
def join : List Nat → Nat
  | [] => 0
  | [height] => height
  | heights => heights.foldl max 0 + 1

namespace Part

def height (p : Part) : Nat :=
  join (join p.items :: p.branches)

def add (p : Part) (height : Nat) : Part :=
  { p with items := height :: p.items, repeatable := true }

/-- Alternatives stand beside each other. -/
def alternate (p : Part) : Part :=
  { branches := join p.items :: p.branches }

/-- Operations between classes associate to the left. -/
def operate (p : Part) : Part :=
  { branches := [p.height] }

/-- Repeats the last item. -/
def repeatLast (p : Part) : Option Part :=
  match p.repeatable, p.items with
  | true, height :: heights => some { p with items := (height + 1) :: heights }
  | _, _ => none

end Part

def classNames : List (List Char) :=
  ["alnum", "alpha", "ascii", "blank", "cntrl", "digit", "graph", "lower", "print", "punct",
    "space", "upper", "word", "xdigit"].map String.toList

/-- Reads a named class behind its bracket, and tells whether it is negated. -/
def readNamed : List Char → Option (Bool × List Char)
  | ':' :: cs =>
    let negated := cs.head? = some '^'
    let cs := if negated then cs.drop 1 else cs
    let name := cs.takeWhile (· ≠ ':')
    match cs.drop name.length with
    | ':' :: ']' :: cs => if classNames.contains name then some (negated, cs) else none
    | _ => none
  | _ => none

/-- Reads the opening of a class behind its bracket. By byte a class cannot be negated. -/
def openClass (m : Mode) (cs : List Char) : Option (List Char) :=
  match m.skip cs with
  | '^' :: cs => if m.byCharacter then some cs else none
  | cs => some cs

def readMember (m : Mode) (c : Char) (cs : List Char) : Option (Atom × List Char) :=
  match if c = '\\' then readEscape m cs else some (.char c, cs) with
  | some (atom, cs) => if m.admitsMember atom then some (atom, m.skip cs) else none
  | none => none

/-- Reads a member of a class or a range of characters. A dash before another one, or before the end
of the class, makes no range. -/
def readRange (m : Mode) (c : Char) (cs : List Char) : Option (List Char) := do
  let (low, cs) ← readMember m c cs
  match cs with
  | '-' :: rest =>
    if m.peek rest = some ']' || m.peek rest = some '-' then return cs
    match m.skip rest with
    | [] => none
    | d :: rest =>
      let (high, rest) ← readMember m d rest
      if (← low.char?) ≤ (← high.char?) then return rest else none
  | cs => return cs

/-- Reads a class to its end, and gives its height. Dashes count as members at the front of a class,
and so does a closing bracket that comes first. -/
def readClass (m : Mode) :
    Nat → Bool → Part → List Part → List Char → Option (Nat × List Char)
  | 0, _, _, _, _ => none
  | fuel + 1, atFront, p, outer, cs =>
    match m.skip cs with
    | [] => none
    | c :: cs =>
      if atFront && (c = '-' || (c = ']' && p.items.isEmpty)) then
        if m.admitsMember (.char c) then readClass m fuel (c = '-') (p.add 0) outer cs else none
      else
        match c, cs with
        | ']', cs =>
          match outer with
          | [] => some (p.height + 1, cs)
          | q :: outer => readClass m fuel false (q.add (p.height + 1)) outer cs
        | '[', cs =>
          match readNamed cs with
          | some (negated, cs) =>
            if m.admitsNamed negated then readClass m fuel false (p.add 0) outer cs else none
          | none =>
            match openClass m cs with
            | some cs => readClass m fuel true {} (p :: outer) cs
            | none => none
        | '&', '&' :: cs => readClass m fuel false p.operate outer cs
        | '-', '-' :: cs => readClass m fuel false p.operate outer cs
        | '~', '~' :: cs => readClass m fuel false p.operate outer cs
        | c, cs =>
          match readRange m c cs with
          | some cs => readClass m fuel false (p.add 0) outer cs
          | none => none

/-- The name of a group starts with a letter or an underscore. -/
def isName : List Char → Bool
  | [] => false
  | c :: cs =>
    (c = '_' || Text.isAlphabetic c) &&
      cs.all fun c => c = '_' || c = '.' || c = '[' || c = ']' || Text.isAlphanumeric c

/-- Flags occur once each, and a dash is followed by one. -/
def areFlags (flags : List Char) : Bool :=
  flags.all "imsUuRx-".toList.contains && flags.Nodup && flags.getLast? ≠ some '-'

/-- How far an expression has been read: the mode, the names of its groups, and what stands behind
the last opening bracket and those around it. -/
structure Progress where
  mode : Mode := {}
  names : List (List Char) := []
  part : Part := {}
  outer : List (Mode × Part) := []
deriving DecidableEq, Repr

namespace Progress

/-- Opens a group. Flags hold up to the end of the group that they are set in. -/
def openGroup (p : Progress) (mode : Mode) : Progress :=
  { p with mode := mode, part := {}, outer := (p.mode, p.part) :: p.outer }

def closeGroup (p : Progress) : Option Progress :=
  match p.outer with
  | [] => none
  | (mode, part) :: outer =>
    some { p with mode := mode, part := part.add (p.part.height + 1), outer := outer }

def addAtom (p : Progress) (atom : Atom) : Option Progress :=
  if p.mode.admits atom then some { p with part := p.part.add 0 } else none

/-- Reads the name of a group. No two groups share one. -/
def takeName (p : Progress) (cs : List Char) : Option (Progress × List Char) :=
  let name := cs.takeWhile (· ≠ '>')
  match cs.drop name.length with
  | [] => none
  | _ :: cs =>
    if isName name && !p.names.contains name then
      some ({ p with names := name :: p.names }.openGroup p.mode, cs)
    else none

/-- Reads flags, either for a group or for what follows. -/
def takeFlags (p : Progress) (cs : List Char) : Option (Progress × List Char) :=
  let flags := cs.takeWhile fun c => c ≠ ':' && c ≠ ')'
  if !areFlags flags then none
  else
    let mode := p.mode.withFlags flags
    match cs.drop flags.length with
    | ':' :: cs => some (p.openGroup mode, cs)
    | ')' :: cs =>
      if flags.isEmpty then none
      else some ({ p with mode := mode, part := { p.part.add 0 with repeatable := false } }, cs)
    | _ => none

/-- Reads the opening of a group behind its bracket. -/
def takeGroup (p : Progress) (cs : List Char) : Option (Progress × List Char) :=
  match p.mode.skip cs with
  | '?' :: 'P' :: '<' :: cs => p.takeName cs
  | '?' :: '<' :: cs => p.takeName cs
  | '?' :: cs => p.takeFlags cs
  | cs => some (p.openGroup p.mode, cs)

/-- Reads a repetition; a question mark behind it asks for few. -/
def takeRepetition (p : Progress) (cs : List Char) : Option (Progress × List Char) :=
  p.part.repeatLast.map fun part =>
    ({ p with part := part }, if cs.head? = some '?' then cs.drop 1 else cs)

def takeClass (p : Progress) (cs : List Char) : Option (Progress × List Char) := do
  let cs ← openClass p.mode cs
  let (height, cs) ← readClass p.mode (cs.length + 1) true {} [] cs
  return ({ p with part := p.part.add height }, cs)

/-- Reads a part of an expression from its first character on. -/
def take (p : Progress) (c : Char) (cs : List Char) : Option (Progress × List Char) :=
  match c with
  | '(' => p.takeGroup cs
  | ')' => p.closeGroup.map (·, cs)
  | '|' => some ({ p with part := p.part.alternate }, cs)
  | '[' => p.takeClass cs
  | '?' | '*' | '+' => p.takeRepetition cs
  | '{' => none
  | '\\' => do
    let (atom, cs) ← readEscape p.mode cs
    return (← p.addAtom atom, cs)
  | '.' => (p.addAtom .any).map (·, cs)
  | '^' | '$' => (p.addAtom .edge).map (·, cs)
  | c => (p.addAtom (.char c)).map (·, cs)

/-- An expression ends outside of all groups, and no more than 250 levels high. -/
def isFinished (p : Progress) : Bool :=
  p.outer.isEmpty && p.part.height ≤ 250

end Progress

/-- Reads an expression to its end. Each part takes a character at least, so fuel of one more than
the length suffices. -/
def readFrom : Nat → Progress → List Char → Bool
  | 0, _, _ => false
  | fuel + 1, p, cs =>
    match p.mode.skip cs with
    | [] => p.isFinished
    | c :: cs =>
      match p.take c cs with
      | some (p, cs) => readFrom fuel p cs
      | none => false

end Expression

/-- Whether a text is a regular expression. No classes, cases or word borders are known beyond
ASCII, so what needs them is refused where an expression works by character. -/
def isExpression (cs : List Char) : Bool :=
  Expression.readFrom (cs.length + 1) {} cs

end BitcoinSpend

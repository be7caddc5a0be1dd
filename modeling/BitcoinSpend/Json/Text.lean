import BitcoinSpend.Bytes.Hex

namespace BitcoinSpend

inductive Json where
  | text (s : String)
  | number (n : Int)
  | truth (b : Bool)
  | list (items : List Json)
  | object (members : List (String × Json))

namespace Json

/-- How a character stands inside quotes. -/
def escaped (c : Char) : List Char :=
  match c.toNat with
  | 8 => ['\\', 'b']
  | 9 => ['\\', 't']
  | 10 => ['\\', 'n']
  | 12 => ['\\', 'f']
  | 13 => ['\\', 'r']
  | 34 => ['\\', c]
  | 92 => ['\\', c]
  | n => if n < 32 then ['\\', 'u', '0', '0'] ++ Hex.digits (UInt8.ofNat n) else [c]

def quoted (s : String) : String :=
  "\"" ++ String.ofList (s.toList.flatMap escaped) ++ "\""

/-- The start of a line at a given level. -/
def indent (level : Nat) : String :=
  String.ofList ('\n' :: List.replicate (2 * level) ' ')

mutual

/-- The text of a value whose last line stands at a given level. -/
def layout (level : Nat) : Json → String
  | text s => quoted s
  | number n => toString n
  | truth b => if b then "true" else "false"
  | list [] => "[]"
  | list items => "[" ++ ",".intercalate (layoutItems (level + 1) items) ++ indent level ++ "]"
  | object [] => "\x7b\x7d"
  | object members =>
    "\x7b" ++ ",".intercalate (layoutMembers (level + 1) members) ++ indent level ++ "\x7d"

def layoutItems (level : Nat) : List Json → List String
  | [] => []
  | item :: items => (indent level ++ layout level item) :: layoutItems level items

def layoutMembers (level : Nat) : List (String × Json) → List String
  | [] => []
  | (key, value) :: members =>
    (indent level ++ quoted key ++ ": " ++ layout level value) :: layoutMembers level members

end

def pretty (value : Json) : String :=
  layout 0 value

end Json

end BitcoinSpend

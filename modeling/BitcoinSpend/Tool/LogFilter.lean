import BitcoinSpend.Text.Expression

namespace BitcoinSpend

namespace LogFilter

def levels : List (List Char) :=
  ["error", "warn", "info", "debug", "trace", "off"].map String.toList

/-- A level is a word in either case or a number up to five. -/
def isLevel (cs : List Char) : Bool :=
  let digits :=
    match cs with
    | '+' :: ds => ds
    | ds => ds
  levels.contains (cs.map Char.toLower) ||
    (!digits.isEmpty && digits.all Char.isDigit &&
      digits.foldl (fun n d => 10 * n + (d.toNat - 48)) 0 ≤ 5)

/-- The level behind an equals sign may be left out. -/
def acceptsLevel (cs : List Char) : Bool :=
  cs.isEmpty || isLevel cs

/-- An exponent is led by a letter and may have a sign; there may be none. -/
def isExponent : List Char → Bool
  | [] => true
  | c :: cs =>
    let digits :=
      match cs with
      | '+' :: ds => ds
      | '-' :: ds => ds
      | ds => ds
    (c = 'e' || c = 'E') && !digits.isEmpty && digits.all Char.isDigit

/-- Digits with a point among them or not, and an exponent or not. -/
def isDecimal (cs : List Char) : Bool :=
  let rest := cs.dropWhile Char.isDigit
  match rest with
  | '.' :: fraction =>
    (rest.length < cs.length || (fraction.head?.map Char.isDigit).getD false) &&
      isExponent (fraction.dropWhile Char.isDigit)
  | rest => rest.length < cs.length && isExponent rest

def namedNumbers : List (List Char) :=
  ["inf", "infinity", "nan"].map String.toList

/-- A number may have a sign. -/
def isNumber (cs : List Char) : Bool :=
  let unsigned :=
    match cs with
    | '+' :: cs => cs
    | '-' :: cs => cs
    | cs => cs
  namedNumbers.contains (unsigned.map Char.toLower) || isDecimal unsigned

/-- A field is a name, or a name and a value between equals signs. The value is a number, or the
expression that it is to match. -/
def acceptsField (field : List Char) : Bool :=
  match field.dropWhile (· ≠ '=') with
  | [] => true
  | _ :: cs =>
    let value := cs.takeWhile (· ≠ '=')
    isNumber value || isExpression value

/-- Drops the characters that begin within the first bytes of a text. -/
def dropBytes : Nat → List Char → List Char
  | 0, cs => cs
  | _ + 1, [] => []
  | n + 1, c :: cs => dropBytes (n + 1 - c.utf8Size) cs

/-- Keeps the characters that begin within the first bytes of a text. -/
def takeBytes : Nat → List Char → List Char
  | 0, _ => []
  | _ + 1, [] => []
  | n + 1, c :: cs => c :: takeBytes (n + 1 - c.utf8Size) cs

/-- Behind a span stands nothing or a level. -/
def acceptsAfterSpan (text : List Char) (place : Nat) : List Char → Bool
  | [] => true
  | '=' :: _ => acceptsLevel (dropBytes (place + 1) text)
  | _ => false

/-- The fields of a span, up to the brace and the bracket that close them. -/
def acceptsFields (text : List Char) (start place : Nat) : List Char → Bool
  | '}' :: ']' :: cs =>
    start < place && acceptsField (takeBytes (place - start) (dropBytes start text)) &&
      acceptsAfterSpan text (place + 2) cs
  | '}' :: _ => false
  | c :: cs => acceptsFields text start (place + c.utf8Size) cs
  | [] => false

/-- The name of a span, up to its fields or the bracket that closes it. -/
def acceptsSpan (text : List Char) (place : Nat) : List Char → Bool
  | ']' :: cs => acceptsAfterSpan text (place + 1) cs
  | '{' :: cs => acceptsFields text (place + 1) (place + 1) cs
  | c :: cs => acceptsSpan text (place + c.utf8Size) cs
  | [] => false

/-- A target, up to a span or a level. -/
def acceptsTarget (text : List Char) (place : Nat) : List Char → Bool
  | [] => true
  | '=' :: _ => acceptsLevel (dropBytes (place + 1) text)
  | '[' :: cs => acceptsSpan text (place + 1) cs
  | c :: cs => acceptsTarget text (place + c.utf8Size) cs

/-- A target starts with a letter, a numeral, a dash, a colon or an underscore. Places are counted
from the first character that is no blank, but the text is cut as it was given, so that blanks in
front shift every part. -/
def acceptsPattern (pattern : String) : Bool :=
  match (Text.trim pattern).toList with
  | [] => false
  | '[' :: cs => acceptsSpan pattern.toList 1 cs
  | c :: cs =>
    (Text.isAlphanumeric c || c = '-' || c = ':' || c = '_') &&
      acceptsTarget pattern.toList c.utf8Size cs

/-- Cuts a text at its commas. -/
def pieces (text : String) : List String :=
  (text.toList.splitOn ',').map String.ofList

/-- Arguments hold patterns between commas; empty ones do not count. -/
def accepts (args : List String) : Bool :=
  ((args.flatMap pieces).filter fun p => !p.isEmpty).all acceptsPattern

end LogFilter

end BitcoinSpend

namespace BitcoinSpend

inductive Task where
  | verify (tx : String)
  | digest (tx : String) (input : Nat)
  | disassemble (script : String)
  | deriveKey (secret : String) (compressed : Bool)
deriving DecidableEq, Repr

/-- What applies to every task: patterns that select log output, the network, and the file with
transactions. -/
structure Settings where
  log : List String
  testnet : Bool
  cache : Option String
deriving DecidableEq, Repr

inductive Request where
  | version
  | help
  | perform (task : Task) (settings : Settings)
deriving DecidableEq, Repr

namespace Arguments

inductive Verb where
  | verify
  | sighash
  | parseScript
  | key
deriving DecidableEq, Repr

def verb? : String → Option Verb
  | "verify" => some .verify
  | "sighash" => some .sighash
  | "parse-script" => some .parseScript
  | "key" => some .key
  | _ => none

/-- An option that waits for a value. -/
inductive Pending where
  | nothing
  | input
  | cache
  | log (hasValue : Bool)
deriving DecidableEq, Repr

/-- The options that were set on one side of the verb. -/
structure Options where
  log : List String := []
  testnet : Bool := false
  cache : Option String := none
  input : Option Nat := none
  uncompressed : Bool := false
  operand : Option String := none
deriving DecidableEq, Repr

/-- How far the command line has been read. A verb starts new options. -/
structure Progress where
  verb : Option Verb := none
  outer : Options := {}
  options : Options := {}
  pending : Pending := .nothing
  operandsOnly : Bool := false
deriving DecidableEq, Repr

/-- An unsigned word of 64 bits in decimal digits, behind a plus sign or not. -/
def word? (text : String) : Option Nat :=
  let digits :=
    match text.toList with
    | '+' :: ds => ds
    | ds => ds
  if digits.isEmpty || !digits.all Char.isDigit then none
  else
    let n := digits.foldl (fun n d => 10 * n + (d.toNat - 48)) 0
    if n < UInt64.size then some n else none

namespace Progress

/-- No option may still wait for its first value. -/
def settle (p : Progress) : Option Progress :=
  match p.pending with
  | .nothing => some p
  | .log true => some { p with pending := .nothing }
  | _ => none

def addLog (p : Progress) (value : String) : Progress :=
  { p with options := { p.options with log := p.options.log ++ [value] } }

/-- Sets the file, which is given once and not empty. -/
def setCache (p : Progress) (value : String) : Option Progress :=
  if p.options.cache.isSome || value.isEmpty then none
  else some { p with options := { p.options with cache := some value }, pending := .nothing }

def setInput (p : Progress) (value : String) : Option Progress :=
  match p.options.input, word? value with
  | none, some n =>
    some { p with options := { p.options with input := some n }, pending := .nothing }
  | _, _ => none

def setOperand (p : Progress) (value : String) : Option Progress :=
  if p.verb.isNone || p.options.operand.isSome then none
  else some { p with options := { p.options with operand := some value } }

/-- Takes an argument without a dash: the value an option waits for, the verb, or the operand. -/
def takeWord (p : Progress) (word : String) : Option Progress :=
  match p.pending with
  | .input => p.setInput word
  | .cache => p.setCache word
  | .log _ => some { p.addLog word with pending := .log true }
  | .nothing =>
    match p.verb, verb? word with
    | none, some verb => some { verb := some verb, outer := p.options }
    | _, _ => p.setOperand word

/-- Goes on, or answers the request that an argument makes at once. -/
abbrev Outcome := Option (Progress ⊕ Request)

def goOn (p : Option Progress) : Outcome :=
  p.map .inl

/-- Takes a long option, with its value if that was attached. -/
def takeLong (p : Progress) (name : String) (value : Option String) : Outcome :=
  match name, value with
  | "log", some v => goOn (some (p.addLog v))
  | "log", none => goOn (some { p with pending := .log false })
  | "cache", some v => goOn (p.setCache v)
  | "cache", none => goOn (some { p with pending := .cache })
  | "input", v =>
    if p.verb ≠ some .sighash then none
    else
      match v with
      | some v => goOn (p.setInput v)
      | none => goOn (some { p with pending := .input })
  | "testnet", none =>
    if p.options.testnet then none
    else goOn (some { p with options := { p.options with testnet := true } })
  | "uncompressed", none =>
    if p.verb ≠ some .key || p.options.uncompressed then none
    else goOn (some { p with options := { p.options with uncompressed := true } })
  | "version", none => if p.verb.isNone then some (.inr .version) else none
  | "help", none => some (.inr .help)
  | _, _ => none

/-- Takes short options, of which the first decides. -/
def takeShort (p : Progress) : List Char → Outcome
  | ['l'] => goOn (some { p with pending := .log false })
  | 'l' :: '=' :: value => goOn (some (p.addLog (String.ofList value)))
  | 'l' :: value => goOn (some (p.addLog (String.ofList value)))
  | 'h' :: _ => some (.inr .help)
  | 'V' :: _ => if p.verb.isNone then some (.inr .version) else none
  | _ => none

/-- Cuts an option at the first equals sign. -/
def cut (cs : List Char) : String × Option String :=
  let name := String.ofList (cs.takeWhile (· ≠ '='))
  match cs.dropWhile (· ≠ '=') with
  | [] => (name, none)
  | _ :: value => (name, some (String.ofList value))

/-- Takes one argument. -/
def take (p : Progress) (arg : String) : Outcome :=
  if p.operandsOnly then goOn (p.settle.bind fun p => p.setOperand arg)
  else
    match arg.toList with
    | ['-', '-'] => goOn (p.settle.map fun p => { p with operandsOnly := true })
    | '-' :: '-' :: cs => p.settle.bind fun p => p.takeLong (cut cs).1 (cut cs).2
    | '-' :: c :: cs => p.settle.bind fun p => p.takeShort (c :: cs)
    | _ => goOn (p.takeWord arg)

/-- A request for help stands where a verb may stand. -/
def asksForHelp (p : Progress) (arg : String) : Bool :=
  !p.operandsOnly && p.pending = .nothing && p.verb.isNone && arg = "help"

/-- What was asked for, once all arguments are taken. Options behind the verb win. -/
def finish (p : Progress) : Option Request := do
  let p ← p.settle
  let operand ← p.options.operand
  let verb ← p.verb
  let task :=
    match verb with
    | .verify => .verify operand
    | .sighash => .digest operand (p.options.input.getD 0)
    | .parseScript => .disassemble operand
    | .key => .deriveKey operand (!p.options.uncompressed)
  return .perform task
    { log := if p.options.log.isEmpty then p.outer.log else p.options.log
      testnet := p.options.testnet || p.outer.testnet
      cache := p.options.cache <|> p.outer.cache }

end Progress

/-- Help may be asked for on one verb, or on itself. -/
def help? : List String → Option Request
  | [] => some .help
  | [topic] => if (verb? topic).isSome || topic = "help" then some .help else none
  | _ => none

/-- Reads the arguments from where they have been read to. -/
def readFrom (p : Progress) : List String → Option Request
  | [] => p.finish
  | arg :: args =>
    if p.asksForHelp arg then help? args
    else
      match p.take arg with
      | none => none
      | some (.inl p) => readFrom p args
      | some (.inr request) => some request

end Arguments

/-- Reads a command line, unless it is misused. -/
def Request.ofArguments? (args : List String) : Option Request :=
  Arguments.readFrom {} args

end BitcoinSpend

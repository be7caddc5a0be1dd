import BitcoinSpend.Bytes.Hex
import BitcoinSpend.Script.Number

namespace BitcoinSpend

/-- Byte strings, the top one first. -/
abbrev Stack := List Bytes

inductive StackError where
  | invalidOperation
  | number (cause : NumberError)
deriving DecidableEq, Repr

def StackError.message : StackError → String
  | .invalidOperation => "invalid stack operation"
  | .number cause => cause.message

abbrev StackM (ε α : Type) := EStateM ε Stack α

namespace Stack

/-- The elements in brackets, the bottom one first. -/
def text (s : Stack) : String :=
  let element : Bytes → String
    | [] => "<empty>"
    | bs => Hex.encode bs
  "[" ++ ", ".intercalate (s.reverse.map element) ++ "]"

/-- Replaces a stack of at least `n` elements, and leaves a smaller one as it is. -/
def rearrange (n : Nat) (f : Stack → Stack) : StackM StackError Unit := fun s =>
  if s.length < n then .error .invalidOperation s else .ok () (f s)

def require (n : Nat) : StackM StackError Unit :=
  rearrange n id

/-- The element that lies `i` below the top. -/
def top (i : Nat) : StackM StackError Bytes := fun s =>
  match s[i]? with
  | some x => .ok x s
  | none => .error .invalidOperation s

def push {ε : Type} (x : Bytes) : StackM ε Unit := fun s => .ok () (x :: s)

def pop : StackM StackError Bytes
  | [] => .error .invalidOperation []
  | x :: s => .ok x s

/-- Takes `n` elements off, the top one first. -/
def popMany : Nat → StackM StackError (List Bytes)
  | 0 => return []
  | n + 1 => do
    let x ← pop
    let xs ← popMany n
    return x :: xs

/-- Takes out the element that lies `i` below the top. -/
def remove (i : Nat) : StackM StackError Bytes := fun s =>
  match s[i]? with
  | some x => .ok x (s.eraseIdx i)
  | none => .error .invalidOperation s

def drop (n : Nat) : StackM StackError Unit :=
  rearrange n fun s => List.drop n s

/-- Copies the top `n` elements. -/
def dup (n : Nat) : StackM StackError Unit :=
  rearrange n fun s => s.take n ++ s

/-- Copies the `n` elements below the top `n`. -/
def dupBelow (n : Nat) : StackM StackError Unit :=
  rearrange (2 * n) fun s => (List.drop n s).take n ++ s

/-- Moves the third group of `n` elements to the top. -/
def rot (n : Nat) : StackM StackError Unit :=
  rearrange (3 * n) fun s =>
    (List.drop (2 * n) s).take n ++ (s.take (2 * n) ++ List.drop (3 * n) s)

/-- Exchanges the top two groups of `n` elements. -/
def swap (n : Nat) : StackM StackError Unit :=
  rearrange (2 * n) fun s =>
    (List.drop n s).take n ++ (s.take n ++ List.drop (2 * n) s)

/-- Takes out the second element. -/
def nip : StackM StackError Unit := do
  let _ ← remove 1

/-- Puts a copy of the top element below the second one. -/
def tuck : StackM StackError Unit :=
  rearrange 2 fun
    | x :: y :: s => x :: y :: x :: s
    | s => s

def ofNumber (r : Except NumberError Int) : StackM StackError Int :=
  ofExcept (r.mapError .number)

/-- Takes an arithmetic operand off. It is gone even if it is no number. -/
def popNumber : StackM StackError Int := do
  let x ← pop
  ofNumber (Number.decode false Number.operandSize x)

/-- Reads the top element as a number of at most `size` bytes. -/
def peekNumber (size : Nat) : StackM StackError Int := do
  let x ← top 0
  ofNumber (Number.decode false size x)

def pushNumber {ε : Type} (n : Int) : StackM ε Unit :=
  push (Number.encode n)

def peekBool : StackM StackError Bool := do
  return Number.isTrue (← top 0)

def popBool : StackM StackError Bool := do
  return Number.isTrue (← pop)

def pushBool {ε : Type} (b : Bool) : StackM ε Unit :=
  pushNumber (if b then 1 else 0)

end Stack

end BitcoinSpend

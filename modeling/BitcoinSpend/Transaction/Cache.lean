import BitcoinSpend.Json.Members
import BitcoinSpend.Json.Text
import BitcoinSpend.Transaction.Spent

namespace BitcoinSpend

/-- Transactions under their ids, in the order of the ids. -/
structure TxCache where
  entries : List (TxId × Transaction)
deriving DecidableEq

namespace TxCache

def empty : TxCache :=
  ⟨[]⟩

def size (cache : TxCache) : Nat :=
  cache.entries.length

def get? (cache : TxCache) (id : TxId) : Option Transaction :=
  (cache.entries.find? fun entry => entry.1 = id).map Prod.snd

def contains (cache : TxCache) (id : TxId) : Bool :=
  (cache.get? id).isSome

/-- Puts a transaction into its place in the order of ids; it takes the place of one with its id. -/
def place (id : TxId) (tx : Transaction) : List (TxId × Transaction) → List (TxId × Transaction)
  | [] => [(id, tx)]
  | (i, t) :: rest =>
    if id = i then (id, tx) :: rest
    else if id.bytes.bytes < i.bytes.bytes then (id, tx) :: (i, t) :: rest
    else (i, t) :: place id tx rest

/-- Stores a transaction under its id. -/
def insert (cache : TxCache) (tx : Transaction) : Except WireError (TxId × TxCache) := do
  let id ← tx.id.mapError .script
  return (id, ⟨place id tx cache.entries⟩)

/-- Stores a transaction given in hexadecimal digits. -/
def insertText (cache : TxCache) (text : String) : Except WireError (TxId × TxCache) := do
  let tx ← Transaction.ofText text false
  cache.insert tx

/-- Answers a stored transaction as one of the network that was asked for. -/
def fetch (cache : TxCache) : Fetcher := fun id testnet =>
  match cache.get? id with
  | some tx => .ok { tx with testnet }
  | none => .error (.notFound id)

/-- The text with its ASCII letters in lower case. -/
def lowerCase (text : String) : String :=
  text.map Char.toLower

/-- Stores a transaction whose id is known beforehand. -/
def insertChecked (cache : TxCache) (key text : String) : Except FetchError TxCache := do
  let (id, stored) ← (cache.insertText text).mapError (.parse key)
  if id.text = lowerCase key then return stored else throw (.idMismatch key id)

/-- Reads a cache from members, each under the id that it must have. -/
def ofMembers (ms : List (String × String)) : Except FetchError TxCache :=
  ms.foldlM (fun cache (key, text) => cache.insertChecked key text) empty

/-- Reads a cache from the text of its file. -/
def ofText (text : String) : Except FetchError TxCache :=
  match Json.readMembers? text with
  | some ms => ofMembers (Json.sortMembers ms)
  | none => .error .json

/-- The members that are written for a cache. -/
def members (cache : TxCache) : Except FetchError (List (String × Json)) :=
  cache.entries.mapM fun (id, tx) => do
    let bs ← tx.bytes.mapError fun e => .parse id.text (.script e)
    return (id.text, .text (Hex.encode bs))

/-- The text of the file that keeps a cache. -/
def text (cache : TxCache) : Except FetchError String := do
  let ms ← cache.members
  return (Json.object ms).pretty

end TxCache

end BitcoinSpend

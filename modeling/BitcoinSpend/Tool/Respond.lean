import BitcoinSpend.Tool.LogFilter
import BitcoinSpend.Tool.Report

namespace BitcoinSpend

/-- The text of a file, if it can be read. -/
abbrev Files := String → Option String

/-- The text without one mark of hexadecimal digits in front. -/
def withoutMark (text : String) : String :=
  match text.toList with
  | '0' :: 'x' :: rest => String.ofList rest
  | _ => text

namespace Settings

/-- The stored transactions, none if no file is named. -/
def loadCache (s : Settings) (files : Files) : Except TaskError TxCache :=
  match s.cache with
  | none => .ok TxCache.empty
  | some path =>
    match files path with
    | none => .error (.cache .io)
    | some text => (TxCache.ofText text).mapError .cache

end Settings

namespace Task

def readTransaction (text : String) (testnet : Bool) : Except TaskError Transaction :=
  (Transaction.ofText (withoutMark text) testnet).mapError fun e => .tx (.wire e)

def readBytes (text : String) : Except TaskError Bytes :=
  (Hex.decode (withoutMark text)).mapError .hex

/-- The answer of a computation that starts without kept hashes. -/
def answer {α : Type} (m : DigestM α) : Except TaskError α :=
  match m {} with
  | .ok a _ => .ok a
  | .error e _ => .error (.tx e)

/-- The report of a task. -/
def report (task : Task) (testnet : Bool) (cache : TxCache) : Except TaskError Json :=
  match task with
  | .verify text => do
    let tx ← readTransaction text testnet
    let report ← answer (VerifyReport.ofTransaction tx Secp256k1.scheme cache.fetch testnet)
    return report.json
  | .digest text input => do
    let tx ← readTransaction text testnet
    let digest ← answer (tx.inputDigest cache.fetch input)
    return (DigestReport.mk input digest).json
  | .disassemble text => do
    let body ← readBytes text
    let script ← (Script.ofBody body).mapError .script
    return (ScriptReport.ofScript script testnet).json
  | .deriveKey text compressed => do
    let bs ← readBytes text
    match Secp256k1.Secret.ofBytes? bs with
    | some secret => return (KeyReport.ofSecret secret compressed testnet).json
    | none => throw (.curve .invalidSecret)

/-- Checks the settings, and then performs the task. -/
def perform (task : Task) (settings : Settings) (files : Files) : Except TaskError Json := do
  if !LogFilter.accepts settings.log then throw .logFilter
  let cache ← settings.loadCache files
  task.report settings.testnet cache

end Task

/-- What a run leaves: the exit code, the output, and the failure that the code tells of. -/
structure Response where
  exitCode : UInt8
  output : String
  failure : Option TaskError

namespace Response

def versionLine : String :=
  "coinscript-cli 0.1.0\n"

def helpText : String :=
  "Bitcoin script and transaction verification tool\n\n" ++
    "Commands: verify TX, sighash TX [--input N], parse-script HEX, key HEX [--uncompressed]\n" ++
    "Options: --testnet, --cache PATH, -l|--log PATTERN...\n"

/-- What is said of a failure without a text of its own. -/
def unreadable : String :=
  "a file or a pattern that the command line names cannot be read"

/-- The response to a command line: 2 when it is misused, 1 when its task fails. -/
def ofArguments (args : List String) (files : Files) : Response :=
  match Request.ofArguments? args with
  | none => ⟨2, "", none⟩
  | some .version => ⟨0, versionLine, none⟩
  | some .help => ⟨0, helpText, none⟩
  | some (.perform task settings) =>
    match task.perform settings files with
    | .ok report => ⟨0, report.pretty ++ "\n", none⟩
    | .error e => ⟨1, "", some e⟩

end Response

end BitcoinSpend

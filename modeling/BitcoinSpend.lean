import BitcoinSpend.Main
import BitcoinSpend.Bytes.Cursor
import BitcoinSpend.Machine.Trace
import BitcoinSpend.Transaction.Coinbase
import BitcoinSpend.Proofs.Machine.Run
import BitcoinSpend.Proofs.Machine.Step
import BitcoinSpend.Proofs.Machine.Balance
import BitcoinSpend.Proofs.Machine.Entry
import BitcoinSpend.Proofs.Machine.Residue
import BitcoinSpend.Proofs.Machine.Success
import BitcoinSpend.Proofs.Machine.Template
import BitcoinSpend.Proofs.Transaction.Spent
import BitcoinSpend.Proofs.Spend.Verify
import BitcoinSpend.Proofs.Spend.KeyHash
import BitcoinSpend.Proofs.Spend.ScriptHash
import BitcoinSpend.Proofs.Machine.Witness
import BitcoinSpend.Proofs.Spend.WitnessProgram
import BitcoinSpend.Proofs.Machine.Walk
import BitcoinSpend.Proofs.Machine.Agreement
import BitcoinSpend.Proofs.Spend.Fee
import BitcoinSpend.Proofs.Spend.WitnessKeyHash
import BitcoinSpend.Proofs.Bytes.Digits
import BitcoinSpend.Proofs.Bytes.Reading
import BitcoinSpend.Proofs.Script.Wire
import BitcoinSpend.Proofs.Transaction.Layout
import BitcoinSpend.Proofs.Transaction.Canonical
import BitcoinSpend.Proofs.Machine.MultiSig
import BitcoinSpend.Proofs.Transaction.RoundTrip
import BitcoinSpend.Proofs.Transaction.Memo
import BitcoinSpend.Proofs.Transaction.Commitment
import BitcoinSpend.Proofs.Machine.Halting
import BitcoinSpend.Proofs.Machine.LockTime
import BitcoinSpend.Proofs.Transaction.Independence
import BitcoinSpend.Proofs.Transaction.ScriptCode
import BitcoinSpend.Proofs.Spend.TimeLock
import BitcoinSpend.Proofs.Machine.Expansion
import BitcoinSpend.Proofs.Machine.Effects
import BitcoinSpend.Proofs.Machine.Bounds
import BitcoinSpend.Proofs.Machine.StackSize
import BitcoinSpend.Proofs.Tool.Report
import BitcoinSpend.Proofs.Script.Number
import BitcoinSpend.Proofs.Machine.ElementSize
import BitcoinSpend.Proofs.Ascending
import BitcoinSpend.Proofs.Json.Members
import BitcoinSpend.Proofs.Transaction.Cache
import BitcoinSpend.Proofs.Json.RoundTrip
import BitcoinSpend.Proofs.Transaction.CacheFile
import BitcoinSpend.Proofs.Transaction.SignedForm
import BitcoinSpend.Proofs.Spend.PushedKey
import BitcoinSpend.Proofs.Spend.Signing
import BitcoinSpend.Proofs.Spend.Amounts
import BitcoinSpend.Proofs.Spend.Verdict
import BitcoinSpend.Proofs.Script.Word
import BitcoinSpend.Proofs.Script.MinimalNumber
import BitcoinSpend.Proofs.Bytes.Rounds
import BitcoinSpend.Proofs.Machine.Arithmetic
import BitcoinSpend.Proofs.Machine.RelativeLockTime
import BitcoinSpend.Proofs.Transaction.Consumption
import BitcoinSpend.Proofs.Script.Faults
import BitcoinSpend.Proofs.Transaction.Height
import BitcoinSpend.Proofs.Machine.Shuffle
import BitcoinSpend.Proofs.Machine.Branches
import BitcoinSpend.Proofs.Machine.Truth
import BitcoinSpend.Proofs.Bytes.Cursor
import BitcoinSpend.Proofs.Bytes.Varint
import BitcoinSpend.Proofs.Script.Classification

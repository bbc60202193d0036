import DurableLists.Config.Basic
import DurableLists.Command
import DurableLists.Error

/-!
# Events

What the library reports about its work while it works. An event has a level and a wording.
-/

set_option autoImplicit false

namespace DurableLists

/-- How serious an event is. -/
inductive Level where
  | debug
  | info
  | warn
  | error
  deriving DecidableEq, Repr

def Level.name : Level → String
  | .debug => "debug"
  | .info => "info"
  | .warn => "warn"
  | .error => "error"

/-- A report about the work. -/
inductive Event where
  | logLoading (path : String)
  | logMissing (path : String)
  | transactionLoaded (txId : UInt64) (records : Nat)
  | tailIgnored (bytes : Nat)
  | transactionDropped (txId : UInt64) (records : Nat)
  | logTruncated (before after : Nat)
  | logLoaded (transactions records : Nat)
  | logOpened (path : String) (policy : SyncPolicy)
  | persistenceDisabled
  | databaseOpened (buckets : Nat)
  | batchAppended (records bytes : Nat)
  | appendFailed (cause : Error)
  | syncFailed (cause : IoError)
  | commitFailed (txId : UInt64) (cause : Error)
  | committed (txId : UInt64) (records : Nat)
  | rolledBack (records : Nat)
  | staged (kind : Kind) (bucket : String) (affected : Nat)
  | tombstoneStaged (bucket : String)
  | tombstoneFailed (bucket : String) (cause : Error)
  | expiredKeySkipped (bucket : String)
  | nothingAddressed (bucket : String)
  | durabilityWaived
  deriving DecidableEq, Repr

namespace Event

def level : Event → Level
  | .transactionLoaded .. | .batchAppended .. | .rolledBack .. | .staged .. | .tombstoneStaged ..
  | .expiredKeySkipped .. | .nothingAddressed .. => .debug
  | .logLoading .. | .logMissing .. | .logLoaded .. | .logOpened .. | .persistenceDisabled
  | .databaseOpened .. | .committed .. => .info
  | .tailIgnored .. | .transactionDropped .. | .logTruncated .. | .tombstoneFailed ..
  | .durabilityWaived => .warn
  | .appendFailed .. | .syncFailed .. | .commitFailed .. => .error

def message : Event → String
  | .logLoading path => "Loading data from command log: " ++ path
  | .logMissing path => s!"Command log not found at '{path}', starting with an empty state."
  | .transactionLoaded txId records =>
    s!"Loaded committed transaction {txId} ({records} records)."
  | .tailIgnored bytes =>
    s!"Command log has {bytes} bytes of trailing, incomplete data. Ignoring."
  | .transactionDropped txId records =>
    s!"Dropping {records} records of transaction {txId} that never committed."
  | .logTruncated before after =>
    s!"Truncating command log from {before} to {after} bytes to drop an uncommitted tail."
  | .logLoaded transactions records =>
    s!"Command log loaded: {transactions} transactions, {records} records."
  | .logOpened path policy =>
    "Command log opened at " ++ path ++ ". Fsync policy: " ++ policy.title
  | .persistenceDisabled =>
    "Persistence disabled; running with an in-memory list index only."
  | .databaseOpened buckets => s!"Database opened with {buckets} list buckets."
  | .batchAppended records bytes =>
    s!"Appended {records} records ({bytes} bytes) to the command log."
  | .appendFailed cause =>
    "Command log write failed: " ++ cause.message ++ ". Entering read-only mode."
  | .syncFailed cause =>
    "Failed to fsync command log: " ++ cause.message ++ ". Entering read-only mode."
  | .commitFailed txId cause =>
    s!"Failed to append transaction {txId} to the command log: " ++ cause.message
  | .committed txId records => s!"Committed transaction {txId} with {records} records."
  | .rolledBack records => s!"Rolled back {records} staged records."
  | .staged kind bucket affected =>
    "Staged " ++ kind.name ++ s!" on bucket '{bucket}' ({affected} affected)."
  | .tombstoneStaged bucket => s!"Staged tombstone for expired key in bucket '{bucket}'."
  | .tombstoneFailed bucket cause =>
    s!"Failed to stage tombstone in bucket '{bucket}': " ++ cause.message
  | .expiredKeySkipped bucket => s!"lkeys: skipping expired key in bucket '{bucket}'."
  | .nothingAddressed bucket => s!"lrem_by_index on '{bucket}': no index addresses an element."
  | .durabilityWaived =>
    "appendfsync is 'no': committed transactions may be lost if the host crashes."

end Event

end DurableLists

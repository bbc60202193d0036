import DurableLists.Command.Payload

/-!
# Log records

A record is a command as the log keeps it: its bucket, its two fields, the second at which it was
issued, the transaction it belongs to, and whether it is the one that closes its transaction.
-/

set_option autoImplicit false

namespace DurableLists

/-- Whether a record closes its transaction. -/
inductive Status where
  | uncommitted
  | committed
  deriving DecidableEq, Repr

/-- A command as the log keeps it. -/
structure Record where
  bucket : String
  key : Bytes
  value : Bytes
  kind : Kind
  timestamp : UInt64
  persistence : UInt32
  txId : UInt64
  status : Status
  deriving DecidableEq, Repr

namespace Record

def isCommitted (r : Record) : Bool := r.status == .committed

def ofCommand (bucket : String) (command : Command) (timestamp : UInt64) : Record where
  bucket
  key := command.encode.1
  value := command.encode.2
  kind := command.kind
  timestamp
  persistence := 0
  txId := 0
  status := .uncommitted

def command (r : Record) : Except Error Command := Command.decode r.kind r.key r.value

/-- Gives the records one transaction id and marks the last one as closing the transaction. -/
def sealBatch (txId : UInt64) : List Record → List Record
  | [] => []
  | [r] => [{ r with txId, status := .committed }]
  | r :: rs => { r with txId, status := .uncommitted } :: sealBatch txId rs

end Record

end DurableLists

import DurableLists.Index
import DurableLists.Env

/-!
# Transactions

A transaction reads, or it reads and writes, or it is closed. A writing transaction keeps a draft: the
records staged so far, in order, and its own copy of every bucket it has tried to change. It sees a
bucket by its copy if it has one, and by the committed index otherwise.

A change is made by `stageAt`, which applies a command to the copy with the function that replay uses
and, if that succeeds, keeps the record. Nothing else adds a record.
-/

set_option autoImplicit false

namespace DurableLists

/-- The work of a transaction that has not been committed. -/
structure Draft where
  /-- The staged records, in the order of staging. -/
  pending : List Record
  /-- The transaction's own copies of buckets. -/
  working : Index
  deriving DecidableEq

def Draft.empty : Draft := ⟨[], ∅⟩

/-- A transaction. -/
inductive Tx where
  | reading
  | writing (draft : Draft)
  | closed
  deriving DecidableEq

namespace Tx

def begin (writable : Bool) : Tx := if writable then .writing .empty else .reading

def isWritable : Tx → Bool
  | .writing _ => true
  | .reading | .closed => false

def isClosed : Tx → Bool
  | .closed => true
  | .reading | .writing _ => false

def pending : Tx → List Record
  | .writing draft => draft.pending
  | .reading | .closed => []

def visible (committed : Index) (bucket : String) : Tx → Option Store
  | .writing draft => (draft.working.store? bucket).or (committed.store? bucket)
  | .reading | .closed => committed.store? bucket

/-! ## Calls on a transaction -/

/-- A transaction at work, and what it reads the time from and reports to. -/
structure Work where
  tx : Tx
  env : Env

abbrev Call (α : Type) := Attempt Work α

def onEnv {α : Type} (call : Attempt Env α) : Call α :=
  Attempt.onPart Work.env (fun env w => { w with env }) call

def now : Call UInt64 := onEnv Env.now

def emit (event : Event) : Call Unit := onEnv (Env.emit event)

def checkOpen : Call Unit := do
  if (← get).tx.isClosed then throw .transactionClosed

def checkWritable : Call Unit := do
  checkOpen
  if !(← get).tx.isWritable then throw .transactionNotWritable

def store? (committed : Index) (bucket : String) : Call (Option Store) := do
  return (← get).tx.visible committed bucket

def look {α : Type} (committed : Index) (bucket : String) (view : Store → Except Error α) :
    Call α := do
  match ← store? committed bucket with
  | none => throw .bucketNotFound
  | some store => Attempt.ofExcept (view store)

def draft : Call Draft := do
  match (← get).tx with
  | .closed => throw .transactionClosed
  | .reading => throw .transactionNotWritable
  | .writing draft => return draft

/-- Makes a call on the transaction's copy of a bucket; the copy is taken from the committed index, or
is empty if there is no such bucket, the first time. -/
def onCopy {α : Type} (committed : Index) (bucket : String) (call : Attempt Store α) : Call α := do
  let draft ← draft
  let copy := ((← store? committed bucket)).getD ∅
  let (outcome, copy) := call.run copy
  modify fun w => { w with tx := .writing { draft with working := draft.working.install bucket copy } }
  Attempt.ofExcept outcome

/-- Stages a command as of a second: applies it to the copy of the bucket and keeps its record. Answers
the count of the command. -/
def stageAt (committed : Index) (bucket : String) (command : Command) (timestamp : UInt64) :
    Call Nat := do
  checkWritable
  let record := Record.ofCommand bucket command timestamp
  let affected ← onCopy committed bucket (Store.apply command timestamp)
  emit (.staged command.kind bucket affected)
  let draft ← draft
  modify fun w => { w with tx := .writing { draft with pending := draft.pending ++ [record] } }
  return affected

def stage (committed : Index) (bucket : String) (command : Command) : Call Nat := do
  stageAt committed bucket command (← now)

end Tx

end DurableLists

import DurableLists.Store
import DurableLists.Record

/-!
# The index of buckets

The index holds the store of every bucket. `applyRecord` reads the command of a record and applies it in
the record's bucket, which it creates first if there is none; a record whose command cannot be read
creates no bucket. `replay` applies records in order up to the first failure.
-/

set_option autoImplicit false

namespace DurableLists

/-- The stores of all buckets. -/
structure Index where
  buckets : Std.ExtTreeMap String Store compare
  deriving DecidableEq

namespace Index

def empty : Index := ⟨∅⟩

instance : EmptyCollection Index := ⟨empty⟩

instance : Inhabited Index := ⟨empty⟩

def store? (index : Index) (bucket : String) : Option Store := index.buckets[bucket]?

def size (index : Index) : Nat := index.buckets.size

def install (index : Index) (bucket : String) (store : Store) : Index :=
  ⟨index.buckets.insert bucket store⟩

/-- Makes a call on the store of a bucket, which is empty if there is none yet, and keeps what the call
leaves. -/
def inBucket {α : Type} (bucket : String) (call : Attempt Store α) : Attempt Index α :=
  Attempt.onPart (fun index => (index.store? bucket).getD ∅)
    (fun store index => index.install bucket store) call

/-- Applies a record in its bucket and answers the count of its command. -/
def applyRecord (record : Record) : Attempt Index Nat := do
  let command ← Attempt.ofExcept record.command
  inBucket record.bucket (Store.apply command record.timestamp)

def replay : List Record → Attempt Index Unit
  | [] => return ()
  | record :: records => do
    let _ ← applyRecord record
    replay records

end Index

end DurableLists

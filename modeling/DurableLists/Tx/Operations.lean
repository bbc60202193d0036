import DurableLists.Tx.Basic
import DurableLists.Text.Glob

/-!
# List operations

The operations of a transaction on the lists of a bucket. Each checks first that the transaction may make
it, then that the bucket is there, then that the list has not expired; only then does it look at its other
arguments. A writing transaction that meets an expired list stages its deletion, and so removes it for
itself and, when it is committed, for all; the operation that met it finds no such list.

A push needs no bucket: it creates the bucket and the list, unless the key holds the separator.
-/

set_option autoImplicit false

namespace DurableLists

namespace Tx

/-! ## Checks -/

def requireBucket (committed : Index) (bucket : String) : Call Unit := do
  checkOpen
  if (← store? committed bucket).isNone then throw .bucketNotFound

/-- Whether a list has expired. If so, a writing transaction stages its deletion as of the same second. -/
def checkExpire (committed : Index) (bucket : String) (key : Bytes) : Call Bool := do
  checkOpen
  let second ← now
  let expired := (← store? committed bucket).any fun store => store.isExpired key second
  if !expired then return false
  if (← get).tx.isWritable then
    match ← Attempt.outcome (stageAt committed bucket (.delete key) second) with
    | .ok _ => emit (.tombstoneStaged bucket)
    | .error cause => emit (.tombstoneFailed bucket cause)
  return true

def requireFresh (committed : Index) (bucket : String) (key : Bytes) : Call Unit := do
  if ← checkExpire committed bucket key then throw .keyNotFound

def checkRead (committed : Index) (bucket : String) (key : Bytes) : Call Unit := do
  requireBucket committed bucket
  requireFresh committed bucket key

def checkChange (committed : Index) (bucket : String) (key : Bytes) : Call Unit := do
  checkWritable
  checkRead committed bucket key

def requireKey (committed : Index) (bucket : String) (key : Bytes) : Call Unit :=
  look committed bucket fun store => if store.containsKey key then .ok () else .error .keyNotFound

/-! ## Reading -/

def peek (committed : Index) (side : Side) (bucket : String) (key : Bytes) : Call Bytes := do
  checkRead committed bucket key
  look committed bucket fun store => store.peek side key

def length (committed : Index) (bucket : String) (key : Bytes) : Call Nat := do
  checkRead committed bucket key
  look committed bucket fun store => store.length key

def range (committed : Index) (bucket : String) (key : Bytes) (start stop : Int64) :
    Call (List Bytes) := do
  checkRead committed bucket key
  look committed bucket fun store => store.range key start stop

/-- The seconds that a list has left, `0` meaning that it lives forever. -/
def ttl (committed : Index) (bucket : String) (key : Bytes) : Call UInt32 := do
  requireBucket committed bucket
  let second ← now
  look committed bucket fun store => store.ttl key second

def expiry (committed : Index) (bucket : String) (key : Bytes) : Call (Option Expiry) := do
  requireBucket committed bucket
  return (← store? committed bucket).bind fun store => store.expiry? key

/-- The keys of the bucket that match a pattern and have not expired, in the order of their octets. Where
`last` is given, the enumeration ends with the key of that number, counted from one. -/
def keys (committed : Index) (bucket pattern : String) (last : Option Nat) : Call (List Bytes) := do
  requireBucket committed bucket
  let second ← now
  let registered := ((← store? committed bucket).getD ∅)
  let (expired, live) := registered.keys.partition fun key => registered.isExpired key second
  onEnv (Env.emitAll (expired.map fun _ => .expiredKeySkipped bucket))
  let found := live.filter fun key => Glob.matchesText pattern.toList (Utf8.decodeLossy key)
  return match last with
    | some (n + 1) => found.take (n + 1)
    | _ => found

/-! ## Changing -/

/-- Puts values at an end of a list one after another, each after a check that the list has not expired
meanwhile. -/
def pushEach (committed : Index) (side : Side) (bucket : String) (key : Bytes) :
    List Bytes → Call Unit
  | [] => return ()
  | value :: values => do
    requireFresh committed bucket key
    let _ ← stage committed bucket (.push side key value)
    pushEach committed side bucket key values

/-- Puts values at an end of a list; each next value goes further out. -/
def push (committed : Index) (side : Side) (bucket : String) (key : Bytes) (values : List Bytes) :
    Call Unit := do
  checkWritable
  if containsSeparator key then throw .separatorViolation
  pushEach committed side bucket key values

def pop (committed : Index) (side : Side) (bucket : String) (key : Bytes) : Call Bytes := do
  checkWritable
  let value ← peek committed side bucket key
  let _ ← stage committed bucket (.pop side key value)
  return value

/-- Removes occurrences of a value and answers how many; the count may not be beyond the length. -/
def remove (committed : Index) (bucket : String) (key : Bytes) (count : Int64) (value : Bytes) :
    Call Nat := do
  checkChange committed bucket key
  let size ← look committed bucket fun store => store.length key
  if size < count.toInt.natAbs then throw .countOutOfRange
  stage committed bucket (.remove key count value)

def replace (committed : Index) (bucket : String) (key : Bytes) (index : Int64) (value : Bytes) :
    Call Unit := do
  checkChange committed bucket key
  requireKey committed bucket key
  let size ← look committed bucket fun store => store.length key
  if index.toInt < 0 ∨ size ≤ index.toInt then throw .indexOutOfRange
  let _ ← stage committed bucket (.replace key index value)
  return ()

/-- Keeps the elements between two offsets, which have to select something unless the list is empty. -/
def trim (committed : Index) (bucket : String) (key : Bytes) (start stop : Int64) : Call Unit := do
  checkChange committed bucket key
  requireKey committed bucket key
  let _ ← range committed bucket key start stop
  let _ ← stage committed bucket (.trim key start stop)
  return ()

/-- Removes the elements at positions and answers how many. Positions that address no element and
repetitions do not count; if none is left, nothing is staged. -/
def removeAt (committed : Index) (bucket : String) (key : Bytes) (indexes : List Int64) :
    Call Nat := do
  checkChange committed bucket key
  let indexes := IndexSet.normalize indexes
  let removable ← look committed bucket fun store => store.removableAt key indexes
  if removable = 0 then
    emit (.nothingAddressed bucket)
    return 0
  let _ ← stage committed bucket (.removeAt key indexes)
  return removable

/-- Sets the time to live of a key: at once in the transaction's copy, and by a record of the same
second. The key need not be registered. -/
def expire (committed : Index) (bucket : String) (key : Bytes) (ttl : UInt32) : Call Unit := do
  checkWritable
  requireBucket committed bucket
  let second ← now
  onCopy committed bucket (modify fun store => store.putExpiry key ⟨ttl, second⟩)
  let _ ← stageAt committed bucket (.expire key ttl) second
  return ()

end Tx

end DurableLists

import Std.Data.ExtTreeMap
import DurableLists.Attempt
import DurableLists.Span
import DurableLists.Expiry
import DurableLists.Command

/-!
# The lists of a bucket

A store holds the lists of one bucket under their keys, and expiries under keys of their own: a key may
have an expiry and no list. A list that has been emptied stays registered. `apply` makes the change that
a command describes; every change of a store that a log records is made by it.
-/

set_option autoImplicit false

namespace DurableLists

/-- The lists and the expiries of one bucket. -/
structure Store where
  lists : Std.ExtTreeMap Bytes (List Bytes) compare
  expiries : Std.ExtTreeMap Bytes Expiry compare
  deriving DecidableEq

namespace Store

def empty : Store := ⟨∅, ∅⟩

instance : EmptyCollection Store := ⟨empty⟩

instance : Inhabited Store := ⟨empty⟩

/-! ## Looking -/

def size (s : Store) : Nat := s.lists.size

def isEmpty (s : Store) : Bool := s.lists.isEmpty

def containsKey (s : Store) (key : Bytes) : Bool := s.lists.contains key

def keys (s : Store) : List Bytes := s.lists.keys

def list? (s : Store) (key : Bytes) : Option (List Bytes) := s.lists[key]?

def expiry? (s : Store) (key : Bytes) : Option Expiry := s.expiries[key]?

def list (s : Store) (key : Bytes) : Except Error (List Bytes) :=
  match s.list? key with
  | none => .error .keyNotFound
  | some items => .ok items

def peek (s : Store) (side : Side) (key : Bytes) : Except Error Bytes := do
  match side.peek? (← s.list key) with
  | none => throw .emptyList
  | some value => return value

def length (s : Store) (key : Bytes) : Except Error Nat := do
  return (← s.list key).length

/-- The elements between two offsets; an empty list has none between any two. -/
def range (s : Store) (key : Bytes) (start stop : Int64) : Except Error (List Bytes) := do
  let items ← s.list key
  if items.isEmpty then return []
  return (← Span.resolve start stop items.length).slice items

/-- How many occurrences of a value a removal with the given count takes out. -/
def removable (s : Store) (key : Bytes) (count : Int64) (value : Bytes) : Except Error Nat := do
  let found := (← s.list key).count value
  return if count = 0 then found else min found count.toInt.natAbs

/-- How many distinct positions of those given address an element. -/
def removableAt (s : Store) (key : Bytes) (indexes : List Int64) : Except Error Nat := do
  let items ← s.list key
  let addressed := indexes.filter fun index => 0 ≤ index.toInt && index.toInt < (items.length : Int)
  return (IndexSet.normalize addressed).length

def isExpired (s : Store) (key : Bytes) (now : UInt64) : Bool :=
  (s.expiry? key).any fun expiry => expiry.isExpired now

/-- The seconds that a key has left at `now`, `0` meaning that it lives forever. -/
def ttl (s : Store) (key : Bytes) (now : UInt64) : Except Error UInt32 :=
  match s.expiry? key with
  | some expiry => if expiry.isExpired now then .error .keyNotFound else .ok (expiry.remaining now)
  | none => if s.containsKey key then .ok 0 else .error .keyNotFound

/-! ## Changing -/

def putList (s : Store) (key : Bytes) (items : List Bytes) : Store :=
  { s with lists := s.lists.insert key items }

def putExpiry (s : Store) (key : Bytes) (expiry : Expiry) : Store :=
  { s with expiries := s.expiries.insert key expiry }

def erase (s : Store) (key : Bytes) : Store :=
  ⟨s.lists.erase key, s.expiries.erase key⟩

def removeFirst (value : Bytes) : (limit : Nat) → List Bytes → List Bytes
  | 0, items => items
  | _ + 1, [] => []
  | limit + 1, item :: items =>
    if item = value then removeFirst value limit items
    else item :: removeFirst value (limit + 1) items

/-- The list without the occurrences of a value that a count tells to remove. -/
def removeCounted (count : Int64) (value : Bytes) (items : List Bytes) : List Bytes :=
  if count = 0 then items.filter (· ≠ value)
  else if 0 < count then removeFirst value count.toInt.natAbs items
  else (removeFirst value count.toInt.natAbs items.reverse).reverse

def removePositions (indexes : List Int64) (items : List Bytes) : List Bytes :=
  (items.zipIdx.filter fun p => !IndexSet.holds indexes p.2).map (·.1)

/-- The elements that a trim keeps: none if the offsets select nothing. -/
def trimmed (start stop : Int64) (items : List Bytes) : List Bytes :=
  match Span.resolve start stop items.length with
  | .ok span => span.slice items
  | .error _ => []

/-- Puts a value at an end of a list, registering the key, and answers the new length. -/
def push (side : Side) (key value : Bytes) : Attempt Store Nat := do
  let s ← get
  let items := side.insert value ((s.list? key).getD [])
  set (s.putList key items)
  return items.length

def pop (side : Side) (key : Bytes) : Attempt Store Bytes := do
  let s ← get
  let items ← Attempt.ofExcept (s.list key)
  let value ← Attempt.ofExcept (s.peek side key)
  set (s.putList key (side.rest items))
  return value

def remove (key : Bytes) (count : Int64) (value : Bytes) : Attempt Store Nat := do
  let s ← get
  let items ← Attempt.ofExcept (s.list key)
  let kept := removeCounted count value items
  set (s.putList key kept)
  return items.length - kept.length

/-- Replaces the value at a position, counted from the head only. -/
def replace (key : Bytes) (index : Int64) (value : Bytes) : Attempt Store Unit := do
  let s ← get
  let items ← Attempt.ofExcept (s.list key)
  if index < 0 ∨ items.length ≤ index.toInt then throw .indexOutOfRange
  set (s.putList key (items.set index.toInt.toNat value))

def trim (key : Bytes) (start stop : Int64) : Attempt Store Unit := do
  let s ← get
  let items ← Attempt.ofExcept (s.list key)
  set (s.putList key (trimmed start stop items))

def removeAt (key : Bytes) (indexes : List Int64) : Attempt Store Nat := do
  let s ← get
  let items ← Attempt.ofExcept (s.list key)
  let kept := removePositions indexes items
  set (s.putList key kept)
  return items.length - kept.length

/-- Removes a key with its list and its expiry and answers whether there was either. -/
def evict (key : Bytes) : Attempt Store Bool := do
  let s ← get
  set (s.erase key)
  return s.containsKey key || (s.expiry? key).isSome

/-- Makes the change that a command describes, as of a second, and answers how many elements, or for
a deletion how many keys, it concerned. -/
def apply (command : Command) (timestamp : UInt64) : Attempt Store Nat :=
  match command with
  | .push side key value => do
    let _ ← push side key value
    return 1
  | .pop side key _ => do
    let _ ← pop side key
    return 1
  | .remove key count value => remove key count value
  | .replace key index value => do
    replace key index value
    return 1
  | .trim key start stop => do
    trim key start stop
    return 1
  | .removeAt key indexes => removeAt key indexes
  | .expire key ttl => do
    modify fun s => s.putExpiry key ⟨ttl, timestamp⟩
    return 1
  | .delete key => do
    return if ← evict key then 1 else 0

end Store

end DurableLists

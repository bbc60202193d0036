import DurableLists.Tx.Operations

/-!
# Requests

The list operations as values: what is asked of a transaction, and what it replies.
-/

set_option autoImplicit false

namespace DurableLists

/-- A list operation and its arguments, the bucket apart. -/
inductive Request where
  | push (side : Side) (key : Bytes) (values : List Bytes)
  | pop (side : Side) (key : Bytes)
  | peek (side : Side) (key : Bytes)
  | length (key : Bytes)
  | range (key : Bytes) (start stop : Int64)
  | remove (key : Bytes) (count : Int64) (value : Bytes)
  | replace (key : Bytes) (index : Int64) (value : Bytes)
  | trim (key : Bytes) (start stop : Int64)
  | removeAt (key : Bytes) (indexes : List Int64)
  | expire (key : Bytes) (ttl : UInt32)
  | checkExpire (key : Bytes)
  | ttl (key : Bytes)
  | expiry (key : Bytes)
  | keys (pattern : String) (last : Option Nat)
  deriving DecidableEq, Repr

/-- What a request brings. -/
inductive Reply where
  | done
  | value (value : Bytes)
  | values (values : List Bytes)
  | count (count : Nat)
  | flag (flag : Bool)
  | seconds (seconds : UInt32)
  | expiry (expiry : Option Expiry)
  | records (records : List Record)
  deriving DecidableEq, Repr

namespace Request

def perform (committed : Index) (bucket : String) : Request → Tx.Call Reply
  | .push side key values => do
    Tx.push committed side bucket key values
    return .done
  | .pop side key => return .value (← Tx.pop committed side bucket key)
  | .peek side key => return .value (← Tx.peek committed side bucket key)
  | .length key => return .count (← Tx.length committed bucket key)
  | .range key start stop => return .values (← Tx.range committed bucket key start stop)
  | .remove key count value => return .count (← Tx.remove committed bucket key count value)
  | .replace key index value => do
    Tx.replace committed bucket key index value
    return .done
  | .trim key start stop => do
    Tx.trim committed bucket key start stop
    return .done
  | .removeAt key indexes => return .count (← Tx.removeAt committed bucket key indexes)
  | .expire key seconds => do
    Tx.expire committed bucket key seconds
    return .done
  | .checkExpire key => return .flag (← Tx.checkExpire committed bucket key)
  | .ttl key => return .seconds (← Tx.ttl committed bucket key)
  | .expiry key => return .expiry (← Tx.expiry committed bucket key)
  | .keys pattern last => return .values (← Tx.keys committed bucket pattern last)

end Request

end DurableLists

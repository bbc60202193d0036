import DurableLists.Command
import DurableLists.Error

/-!
# Commands as a key field and a value field

A log stores a command as two byte strings beside its kind. A push, a pop and a deletion need no more
than the key and one value. Other arguments are joined to them with a separator octet:

| kind       | key field     | value field                |
|------------|---------------|----------------------------|
| `remove`   | key           | count, separator, value    |
| `replace`  | key, separator, index | value              |
| `trim`     | key, separator, start | stop               |
| `removeAt` | key           | the index set              |
| `expire`   | key           | the time to live           |
| `delete`   | key           | nothing                    |

Numbers are decimal. A key field is split at its last separator and a value field at its first one, so
keys and values may hold separators themselves. `encode` writes the fields and `decode` reads them.
-/

set_option autoImplicit false

namespace DurableLists

/-- The octet that joins a number to a key or a value: `|`. -/
def separator : UInt8 := 124

def containsSeparator (key : Bytes) : Bool := key.contains separator

namespace Payload

/-! ## Fields -/

def joinInt (front : Bytes) (separator : UInt8) (value : Int64) : Bytes :=
  front ++ separator :: Decimal.render value.toInt

def splitFirst (field : Bytes) : Option (Bytes × Bytes) :=
  match field.dropWhile (· != separator) with
  | [] => none
  | _ :: after => some (field.takeWhile (· != separator), after)

def splitLast (field : Bytes) : Option (Bytes × Bytes) :=
  (splitFirst field.reverse).map fun p => (p.2.reverse, p.1.reverse)

def readNumber {α : Type} (reader : Bytes → Except Decimal.Fault α) (field : Bytes) :
    Except Error α :=
  match Utf8.decode field with
  | .error fault => .error (.malformedRecord (.notUtf8 fault))
  | .ok _ =>
    match reader field with
    | .error fault => .error (.malformedRecord (.notInteger fault))
    | .ok value => .ok value

def readInt64 (field : Bytes) : Except Error Int64 := readNumber Decimal.readInt64 field

def readUInt32 (field : Bytes) : Except Error UInt32 := readNumber Decimal.readUInt32 field

def readKeyed (field : Bytes) : Except Error (Bytes × Int64) :=
  match splitLast field with
  | none => .error (.malformedRecord .keyWithoutSeparator)
  | some (key, number) => (readInt64 number).map fun value => (key, value)

def readIndexSet (field : Bytes) : Except Error (List Int64) :=
  match IndexSet.decode field with
  | .error fault => .error (.ofIndexSet fault)
  | .ok indexes => .ok indexes

end Payload

namespace Command

/-! ## Commands -/

def encode : Command → Bytes × Bytes
  | .push _ key value => (key, value)
  | .pop _ key value => (key, value)
  | .remove key count value => (key, Decimal.render count.toInt ++ separator :: value)
  | .replace key index value => (Payload.joinInt key separator index, value)
  | .trim key start stop => (Payload.joinInt key separator start, Decimal.render stop.toInt)
  | .removeAt key indexes => (key, IndexSet.encode indexes)
  | .expire key ttl => (key, Decimal.render ttl.toNat)
  | .delete key => (key, [])

def decode (kind : Kind) (key value : Bytes) : Except Error Command :=
  match kind with
  | .push side => .ok (.push side key value)
  | .pop side => .ok (.pop side key value)
  | .remove =>
    match Payload.splitFirst value with
    | none => .error (.malformedRecord .countWithoutSeparator)
    | some (count, value) => (Payload.readInt64 count).map fun count => .remove key count value
  | .replace => (Payload.readKeyed key).map fun p => .replace p.1 p.2 value
  | .trim => do
    let (key, start) ← Payload.readKeyed key
    let stop ← Payload.readInt64 value
    return .trim key start stop
  | .removeAt => (Payload.readIndexSet value).map fun indexes => .removeAt key indexes
  | .expire => (Payload.readUInt32 value).map fun ttl => .expire key ttl
  | .delete => .ok (.delete key)

end Command

end DurableLists

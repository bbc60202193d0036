import DurableLists.Bytes.LittleEndian
import DurableLists.Side

/-!
# List commands

A command is a change of one list, or of its expiry, with everything that is needed to make the change
again. Its kind is what remains when the arguments are left out; a kind has a name and a number by
which a log knows it.
-/

set_option autoImplicit false

namespace DurableLists

/-- The kinds of change. -/
inductive Kind where
  | push (side : Side)
  | pop (side : Side)
  | remove
  | replace
  | trim
  | removeAt
  | expire
  | delete
  deriving DecidableEq, Repr

namespace Kind

def all : List Kind :=
  [.push .head, .push .tail, .pop .head, .pop .tail, .remove, .replace, .trim, .removeAt, .expire,
    .delete]

def flag : Kind → UInt16
  | .push .head => 1
  | .push .tail => 2
  | .pop .head => 3
  | .pop .tail => 4
  | .remove => 5
  | .replace => 6
  | .trim => 7
  | .removeAt => 8
  | .expire => 9
  | .delete => 10

def name : Kind → String
  | .push .head => "lpush"
  | .push .tail => "rpush"
  | .pop .head => "lpop"
  | .pop .tail => "rpop"
  | .remove => "lrem"
  | .replace => "lset"
  | .trim => "ltrim"
  | .removeAt => "lrembyindex"
  | .expire => "expire"
  | .delete => "delete"

def ofFlag? (flag : UInt16) : Option Kind := all.find? fun kind => kind.flag == flag

def ofName? (name : String) : Option Kind := all.find? fun kind => kind.name == name

@[simp] theorem ofFlag?_flag (kind : Kind) : ofFlag? kind.flag = some kind := by
  rcases kind with (_ | _) | (_ | _) | _ | _ | _ | _ | _ | _ <;> rfl

theorem flag_of_ofFlag? {flag : UInt16} {kind : Kind} (h : ofFlag? flag = some kind) :
    kind.flag = flag := by
  simpa using List.find?_some h

end Kind

/-- A change of the list under `key`, or of its expiry. -/
inductive Command where
  | push (side : Side) (key value : Bytes)
  /-- Takes the value at an end, which is the one given. -/
  | pop (side : Side) (key value : Bytes)
  /-- Removes occurrences of a value: the first `count` ones, the last `-count` ones, or all for `0`. -/
  | remove (key : Bytes) (count : Int64) (value : Bytes)
  | replace (key : Bytes) (index : Int64) (value : Bytes)
  /-- Keeps the positions between two offsets. -/
  | trim (key : Bytes) (start stop : Int64)
  | removeAt (key : Bytes) (indexes : List Int64)
  | expire (key : Bytes) (ttl : UInt32)
  | delete (key : Bytes)
  deriving DecidableEq, Repr

namespace Command

def key : Command → Bytes
  | .push _ key _ | .pop _ key _ | .remove key _ _ | .replace key _ _ | .trim key _ _
  | .removeAt key _ | .expire key _ | .delete key => key

/-- The kind of a command. -/
def kind : Command → Kind
  | .push side _ _ => .push side
  | .pop side _ _ => .pop side
  | .remove .. => .remove
  | .replace .. => .replace
  | .trim .. => .trim
  | .removeAt .. => .removeAt
  | .expire .. => .expire
  | .delete _ => .delete

end Command

end DurableLists

import DurableLists.Varint

/-!
# Sets of list positions

`normalize` brings a list of positions into the one form that stands for its set: increasing, without
repetition. The payload of a removal by position holds how many positions there are, then each of them
in the order given; reading takes the whole payload and refuses octets left over.
-/

set_option autoImplicit false

namespace DurableLists

namespace IndexSet

/-! ## Normal form -/

/-- Puts a position into an increasing list that may hold it already. -/
def insert (index : Int64) : List Int64 → List Int64
  | [] => [index]
  | i :: rest =>
    if index < i then index :: i :: rest
    else if index = i then i :: rest
    else i :: insert index rest

def normalize (indexes : List Int64) : List Int64 := indexes.foldr insert []

def holds (indexes : List Int64) (n : Nat) : Bool := indexes.any fun index => index.toInt == n

/-! ## Payloads -/

/-- Why a payload is no set of positions. -/
inductive Fault where
  | number (fault : Varint.Fault)
  /-- So many octets follow the last position. -/
  | trailing (count : Nat)
  deriving DecidableEq, Repr

def encode (indexes : List Int64) : Bytes :=
  Varint.write indexes.length ++ indexes.flatMap Varint.writeInt64

def readItems : Nat → Bytes → Except Varint.Fault (List Int64 × Bytes)
  | 0, bs => .ok ([], bs)
  | n + 1, bs => do
    let (index, bs) ← Varint.readInt64 bs
    let (indexes, bs) ← readItems n bs
    return (index :: indexes, bs)

/-- The number of positions, the positions, and the octets after them. -/
def read (bs : Bytes) : Except Varint.Fault (List Int64 × Bytes) := do
  let (count, bs) ← Varint.read false bs
  readItems count bs

def decode (bs : Bytes) : Except Fault (List Int64) :=
  match read bs with
  | .error fault => .error (.number fault)
  | .ok (indexes, []) => .ok indexes
  | .ok (_, rest) => .error (.trailing rest.length)

end IndexSet

end DurableLists

/-!
# Expiry of lists

An expiry is a time to live, in seconds, and the moment at which it was set. The time to live `0`
means forever. A list has expired once strictly more seconds have passed than its time to live.
-/

set_option autoImplicit false

namespace DurableLists

def persistent : UInt32 := 0

/-- A time to live and the Unix second at which it was set. -/
structure Expiry where
  ttl : UInt32
  setAt : UInt64
  deriving DecidableEq, Repr

namespace Expiry

def isPersistent (e : Expiry) : Bool := e.ttl == persistent

/-- Whether the list has expired at `now`; a `now` before the setting counts as no time passed. -/
def isExpired (e : Expiry) (now : UInt64) : Bool :=
  !e.isPersistent && decide (e.ttl.toNat < now.toNat - e.setAt.toNat)

/-- The seconds left at `now`, within the range of a time to live; `0` for a list that lives forever.
The deadline is held at the last representable second. -/
def remaining (e : Expiry) (now : UInt64) : UInt32 :=
  if e.isPersistent then 0
  else
    let deadline := min (e.setAt.toNat + e.ttl.toNat) (UInt64.size - 1)
    UInt32.ofNat (min (deadline - now.toNat) (UInt32.size - 1))

end Expiry

end DurableLists

/-!
# Lengths of time

A duration is a whole number of nanoseconds.
-/

set_option autoImplicit false

namespace DurableLists

/-- A length of time. -/
structure Duration where
  nanoseconds : Nat
  deriving DecidableEq, Repr

namespace Duration

def perSecond : Nat := 1000000000

def of (seconds nanoseconds : Nat) : Duration := ⟨seconds * perSecond + nanoseconds⟩

def seconds (d : Duration) : Nat := d.nanoseconds / perSecond

def subsecond (d : Duration) : Nat := d.nanoseconds % perSecond

def isZero (d : Duration) : Bool := d.nanoseconds == 0

end Duration

end DurableLists

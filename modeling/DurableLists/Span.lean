import DurableLists.Error

/-!
# Spans of a list

A span names a nonempty run of list positions by its first and last one. `Span.resolve` reads a pair
of offsets against a list: a negative offset counts from the tail, a start before the head is moved to
the head and an end past the tail to the last element. A pair that then selects nothing is refused.
-/

set_option autoImplicit false

namespace DurableLists

/-- The positions from `first` to `last`, both included. -/
structure Span where
  first : Nat
  last : Nat
  deriving DecidableEq, Repr

namespace Span

/-- The position that an offset names in a list of the given size, before any limit is applied. -/
def place (offset : Int64) (size : Nat) : Int :=
  if offset.toInt < 0 then size + offset.toInt else offset.toInt

def resolve (start stop : Int64) (size : Nat) : Except Error Span :=
  let first := max (place start size) 0
  let last := min (place stop size) (size - 1)
  if last < 0 ∨ size ≤ first ∨ last < first then .error .invalidRange
  else .ok ⟨first.toNat, last.toNat⟩

def slice {α : Type} (span : Span) (items : List α) : List α :=
  (items.take (span.last + 1)).drop span.first

end Span

end DurableLists

/-!
# The two ends of a list

What it means to look at, to put at and to take from an end of a list.
-/

set_option autoImplicit false

namespace DurableLists

/-- The two ends of a list. -/
inductive Side where
  | head
  | tail
  deriving DecidableEq, Repr

namespace Side

variable {α : Type}

def peek? : Side → List α → Option α
  | .head, items => items.head?
  | .tail, items => items.getLast?

def insert : Side → α → List α → List α
  | .head, value, items => value :: items
  | .tail, value, items => items ++ [value]

def rest : Side → List α → List α
  | .head, items => items.tail
  | .tail, items => items.dropLast

@[simp] theorem peek?_insert (side : Side) (value : α) (items : List α) :
    side.peek? (side.insert value items) = some value := by
  cases side <;> simp [peek?, insert]

@[simp] theorem rest_insert (side : Side) (value : α) (items : List α) :
    side.rest (side.insert value items) = items := by
  cases side <;> simp [rest, insert]

@[simp] theorem length_insert (side : Side) (value : α) (items : List α) :
    (side.insert value items).length = items.length + 1 := by
  cases side <;> simp [insert]

end Side

end DurableLists

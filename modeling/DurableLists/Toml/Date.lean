/-!
# Dates and times of TOML

A date has to exist in the calendar. A time of day may leave its seconds out, and may have a fraction
only after them. A date and a time of day together may have an offset from universal time.
-/

set_option autoImplicit false

namespace DurableLists

namespace Toml

namespace Date

def two? (c d : Char) : Option Nat :=
  if c.isDigit && d.isDigit then some (10 * (c.toNat - 48) + (d.toNat - 48)) else none

def within (n : Option Nat) (least greatest : Nat) : Bool :=
  n.any fun n => least ≤ n && n ≤ greatest

def daysIn (year month : Nat) : Nat :=
  if month = 2 then
    if year % 4 = 0 ∧ (year % 100 ≠ 0 ∨ year % 400 = 0) then 29 else 28
  else if month ∈ [4, 6, 9, 11] then 30
  else 31

def afterDate? : List Char → Option (List Char)
  | a :: b :: c :: d :: '-' :: e :: f :: '-' :: g :: h :: cs => do
    let century ← two? a b
    let year ← two? c d
    let month ← two? e f
    if within (some month) 1 12 && within (two? g h) 1 (daysIn (100 * century + year) month) then
      some cs
    else none
  | _ => none

/-- What follows a fraction of a second; nothing need stand in front. -/
def afterFraction? : List Char → Option (List Char)
  | '.' :: cs => if (cs.head?.any Char.isDigit) then some (cs.dropWhile Char.isDigit) else none
  | cs => some cs

def afterTime? : List Char → Option (List Char)
  | a :: b :: ':' :: c :: d :: cs =>
    if within (two? a b) 0 23 && within (two? c d) 0 59 then
      match cs with
      | ':' :: e :: f :: cs => if within (two? e f) 0 60 then afterFraction? cs else none
      | cs => some cs
    else none
  | _ => none

/-- Whether characters are an offset from universal time, or nothing. -/
def isOffset : List Char → Bool
  | [] => true
  | ['Z'] => true
  | ['z'] => true
  | [sign, a, b, ':', c, d] =>
    (sign == '+' || sign == '-') && within (two? a b) 0 23 && within (two? c d) 0 59
  | _ => false

def isDate (cs : List Char) : Bool :=
  match afterDate? cs with
  | some [] => true
  | some (c :: cs) =>
    (c == 'T' || c == 't' || c == ' ') && (afterTime? cs).any isOffset
  | none => (afterTime? cs).any List.isEmpty

end Date

end Toml

end DurableLists

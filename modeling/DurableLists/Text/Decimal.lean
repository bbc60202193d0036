import DurableLists.Bytes.LittleEndian

/-!
# Decimal integer literals

`render` writes an integer with the fewest digits and a minus sign if it is negative. `readInt64` and
`readUInt32` read a literal: one or more digits after an optional `+`, or `-` where the type has
negative values, with a value that the type holds. Digits are read from the left and the first fault
met is the one reported.
-/

set_option autoImplicit false

namespace DurableLists

namespace Decimal

/-- Why octets are not a literal of the wanted type. -/
inductive Fault where
  | empty
  | invalidDigit
  | tooLarge
  | tooSmall
  deriving DecidableEq, Repr

def Fault.message : Fault → String
  | .empty => "cannot parse integer from empty string"
  | .invalidDigit => "invalid digit found in string"
  | .tooLarge => "number too large to fit in target type"
  | .tooSmall => "number too small to fit in target type"

/-! ## Writing -/

def digit (d : Nat) : UInt8 := UInt8.ofNat (48 + d)

def digits (n : Nat) : Bytes :=
  if n < 10 then [digit n] else digits (n / 10) ++ [digit (n % 10)]

def render : Int → Bytes
  | .ofNat n => digits n
  | .negSucc n => 45 :: digits (n + 1)

/-! ## Reading -/

def digitValue? (b : UInt8) : Option Nat :=
  if 48 ≤ b.toNat ∧ b.toNat ≤ 57 then some (b.toNat - 48) else none

/-- The value of digits that follow digits of value `value`; going past `limit` is `beyond`. -/
def readDigits (limit : Nat) (beyond : Fault) (value : Nat) : Bytes → Except Fault Nat
  | [] => .ok value
  | b :: bs =>
    match digitValue? b with
    | none => .error .invalidDigit
    | some d =>
      if 10 * value + d ≤ limit then readDigits limit beyond (10 * value + d) bs else .error beyond

def readMagnitude (limit : Nat) (beyond : Fault) : Bytes → Except Fault Nat
  | [] => .error .invalidDigit
  | b :: bs => readDigits limit beyond 0 (b :: bs)

/-- How many signed 64-bit numbers are negative: two to the power of 63. -/
def half : Nat := 9223372036854775808

def readInt64 : Bytes → Except Fault Int64
  | [] => .error .empty
  | 43 :: bs => (readMagnitude (half - 1) .tooLarge bs).map fun n => Int64.ofInt n
  | 45 :: bs => (readMagnitude half .tooSmall bs).map fun n => Int64.ofInt (-n)
  | bs => (readMagnitude (half - 1) .tooLarge bs).map fun n => Int64.ofInt n

def readUInt32 : Bytes → Except Fault UInt32
  | [] => .error .empty
  | 43 :: bs => (readMagnitude (UInt32.size - 1) .tooLarge bs).map UInt32.ofNat
  | bs => (readMagnitude (UInt32.size - 1) .tooLarge bs).map UInt32.ofNat

end Decimal

end DurableLists

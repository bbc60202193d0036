import DurableLists.Bytes.LittleEndian

/-!
# Variable-width integers

A natural number below 251 is one octet. A larger one is a marker octet, `0xFB`, `0xFC` or `0xFD`, and
two, four or eight little-endian octets. A signed number is written as its zigzag code, which puts
`0, -1, 1, -2, …` at `0, 1, 2, 3, …`. Writing takes the narrowest form; reading accepts every form and
returns the octets after the number.
-/

set_option autoImplicit false

namespace DurableLists

namespace Varint

/-- The integer types that a fault speaks of. -/
inductive WordType where
  | u32 | u64 | u128 | i32 | i64 | i128 | reserved
  deriving DecidableEq, Repr

def WordType.name : WordType → String
  | .u32 => "U32"
  | .u64 => "U64"
  | .u128 => "U128"
  | .i32 => "I32"
  | .i64 => "I64"
  | .i128 => "I128"
  | .reserved => "Reserved"

/-- Why a number cannot be read. -/
inductive Fault where
  /-- So many octets of the number are missing. -/
  | unexpectedEnd (additional : Nat)
  /-- The marker announces a type other than the expected one. -/
  | wrongType (expected found : WordType)
  deriving DecidableEq, Repr

def Fault.message : Fault → String
  | .unexpectedEnd additional => s!"UnexpectedEnd \x7b additional: {additional} \x7d"
  | .wrongType expected found =>
    "InvalidIntegerType \x7b expected: " ++ expected.name ++ ", found: " ++ found.name ++ " \x7d"

/-! ## Unsigned numbers -/

def write (n : Nat) : Bytes :=
  if n ≤ 250 then [UInt8.ofNat n]
  else if n < UInt16.size then 0xFB :: Bytes.toLE 2 n
  else if n < UInt32.size then 0xFC :: Bytes.toLE 4 n
  else 0xFD :: Bytes.toLE 8 n

def readFixed (width : Nat) (bs : Bytes) : Except Fault (Nat × Bytes) :=
  let field := bs.take width
  if field.length = width then .ok (Bytes.ofLE field, bs.drop width)
  else .error (.unexpectedEnd (width - field.length))

/-- The type named as expected: with nine or more octets at hand the 32-bit one, else the 64-bit one. -/
def expectedType (signed : Bool) (after : Nat) : WordType :=
  match signed, decide (8 ≤ after) with
  | false, true => .u32
  | false, false => .u64
  | true, true => .i32
  | true, false => .i64

def markedType (signed : Bool) (marker : UInt8) : WordType :=
  if marker = 0xFE then (if signed then .i128 else .u128) else .reserved

/-- Reads the code of one number; `signed` only matters to the wording of a fault. -/
def read (signed : Bool) : Bytes → Except Fault (Nat × Bytes)
  | [] => .error (.unexpectedEnd 1)
  | b :: bs =>
    if b ≤ 250 then .ok (b.toNat, bs)
    else if b = 0xFB then readFixed 2 bs
    else if b = 0xFC then readFixed 4 bs
    else if b = 0xFD then readFixed 8 bs
    else .error (.wrongType (expectedType signed bs.length) (markedType signed b))

/-! ## Signed numbers -/

def zigzag : Int → Nat
  | .ofNat n => 2 * n
  | .negSucc n => 2 * n + 1

def unzigzag (n : Nat) : Int := if n % 2 = 0 then .ofNat (n / 2) else .negSucc (n / 2)

@[simp] theorem unzigzag_zigzag (i : Int) : unzigzag (zigzag i) = i := by
  cases i with
  | ofNat n => simp [zigzag, unzigzag]
  | negSucc n =>
    have hm : (2 * n + 1) % 2 = 1 := by omega
    have hd : (2 * n + 1) / 2 = n := by omega
    simp [zigzag, unzigzag, hm, hd]

@[simp] theorem zigzag_unzigzag (n : Nat) : zigzag (unzigzag n) = n := by
  unfold unzigzag
  split <;> simp only [zigzag] <;> omega

def writeInt64 (i : Int64) : Bytes := write (zigzag i.toInt)

def readInt64 (bs : Bytes) : Except Fault (Int64 × Bytes) :=
  (read true bs).map fun p => (Int64.ofInt (unzigzag p.1), p.2)

end Varint

end DurableLists

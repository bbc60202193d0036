import DurableLists.Bytes.LittleEndian

/-!
# The CRC-32C checksum

The cyclic redundancy check of 32 bits with the Castagnoli polynomial, in reflected bit order: the
register starts with all bits set, takes in each octet at its low end, one bit at a time, and is
complemented at the end.
-/

set_option autoImplicit false

namespace DurableLists

namespace Checksum

/-- The Castagnoli polynomial, lowest power first. -/
def polynomial : BitVec 32 := 0x82F63B78#32

/-- Moves the register by one bit, subtracting the polynomial if a set bit leaves it. -/
def shiftBit (r : BitVec 32) : BitVec 32 :=
  if r.getLsbD 0 then (r >>> 1) ^^^ polynomial else r >>> 1

def shiftBits : Nat → BitVec 32 → BitVec 32
  | 0, r => r
  | n + 1, r => shiftBits n (shiftBit r)

def absorb (r : BitVec 32) (b : UInt8) : BitVec 32 := shiftBits 8 (r ^^^ b.toBitVec.setWidth 32)

def register (start : BitVec 32) (bs : Bytes) : BitVec 32 := bs.foldl absorb start

def crc32c (bs : Bytes) : UInt32 := ⟨~~~ register (BitVec.allOnes 32) bs⟩

end Checksum

end DurableLists

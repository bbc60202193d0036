import Mathlib.Algebra.Group.Nat.Defs
import DurableLists.Bytes.LittleEndian

/-!
# Little-endian numbers that fit

A string of `w` octets reads as a number below `256 ^ w` (`ofLE_lt`). A number is read back from its `w`
octets up to multiples of this bound (`ofLE_toLE`), and so exactly if it is below (`ofLE_toLE_of_lt`).
-/

set_option autoImplicit false

namespace DurableLists

namespace Bytes

theorem ofLE_lt (bs : Bytes) : ofLE bs < 256 ^ bs.length := by
  induction bs with
  | nil => simp [ofLE]
  | cons b bs ih =>
    have hb : b.toNat < 256 := b.toNat_lt
    rw [ofLE, List.length_cons, Nat.pow_succ]
    omega

theorem ofLE_toLE (w n : Nat) : ofLE (toLE w n) = n % 256 ^ w := by
  induction w generalizing n with
  | zero => simp [toLE, ofLE, Nat.mod_one]
  | succ w ih =>
    have hm : (UInt8.ofNat (n % 256)).toNat = n % 256 := by simp
    rw [toLE, ofLE, ih, hm, Nat.pow_succ', Nat.mod_mul]

theorem ofLE_toLE_of_lt {w n : Nat} (h : n < 256 ^ w) : ofLE (toLE w n) = n := by
  rw [ofLE_toLE, Nat.mod_eq_of_lt h]

end Bytes

end DurableLists

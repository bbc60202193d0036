/-!
# Byte strings and their little-endian numbers

`Bytes` is a list of octets. `toLE w n` writes a number as `w` octets, least significant first, and
`ofLE` reads octets back. Reading then writing keeps the octets (`toLE_ofLE`), so a number in a field of
fixed width has one written form.
-/

set_option autoImplicit false

namespace DurableLists

abbrev Bytes := List UInt8

namespace Bytes

/-- The `w` octets of `n`, least significant first; higher digits are dropped. -/
def toLE : Nat → Nat → Bytes
  | 0, _ => []
  | w + 1, n => UInt8.ofNat (n % 256) :: toLE w (n / 256)

def ofLE : Bytes → Nat
  | [] => 0
  | b :: bs => b.toNat + 256 * ofLE bs

@[simp] theorem length_toLE (w n : Nat) : (toLE w n).length = w := by
  induction w generalizing n with
  | zero => rfl
  | succ w ih => simp [toLE, ih]

theorem toLE_ofLE (bs : Bytes) : toLE bs.length (ofLE bs) = bs := by
  induction bs with
  | nil => rfl
  | cons b bs ih =>
    have hb : b.toNat < 256 := b.toNat_lt
    have hm : (b.toNat + 256 * ofLE bs) % 256 = b.toNat := by omega
    have hd : (b.toNat + 256 * ofLE bs) / 256 = ofLE bs := by omega
    rw [List.length_cons, toLE, ofLE, hm, hd, ih]
    simp

end Bytes

end DurableLists

import DurableLists.Bytes.Lemmas
import DurableLists.Checksum

/-!
# A checksum tells a burst

The polynomial has its highest bit set, so the bit that leaves the register can be told from the bit that
enters at the top: moving the register loses nothing (`shiftBit_injective`), and no octets that follow make
two registers alike. Moving is also linear, so as many octets as the register holds are taken in as one word
(`register_eq_shiftBits`). So two byte strings that differ only in four octets in a row have different
checksums (`eq_of_crc32c_eq`).
-/

set_option autoImplicit false

namespace DurableLists

namespace Checksum

/-! ## Moving the register loses nothing -/

theorem getLsbD_shiftBit (r : BitVec 32) (i : Nat) : (shiftBit r).getLsbD i =
    (r.getLsbD (1 + i) ^^ (r.getLsbD 0 && polynomial.getLsbD i)) := by
  rw [shiftBit]
  cases h : r.getLsbD 0 with
  | true => simp [BitVec.getLsbD_xor, BitVec.getLsbD_ushiftRight]
  | false => simp [BitVec.getLsbD_ushiftRight]

theorem shiftBit_injective {r t : BitVec 32} (h : shiftBit r = shiftBit t) : r = t := by
  have hpolynomial : polynomial.getLsbD 31 = true := by decide
  have hbit (i : Nat) := congrArg (fun x : BitVec 32 => x.getLsbD i) h
  simp only [getLsbD_shiftBit] at hbit
  -- Nothing but the polynomial reaches the highest bit, so that bit says which bit has left.
  have hlow : r.getLsbD 0 = t.getLsbD 0 := by
    have htop := hbit 31
    have hr : r.getLsbD (1 + 31) = false := BitVec.getLsbD_of_ge r 32 (Nat.le_refl _)
    have ht : t.getLsbD (1 + 31) = false := BitVec.getLsbD_of_ge t 32 (Nat.le_refl _)
    rwa [hpolynomial, Bool.and_true, Bool.and_true, hr, ht, Bool.false_xor, Bool.false_xor] at htop
  apply BitVec.eq_of_getLsbD_eq
  intro i hi
  cases i with
  | zero => exact hlow
  | succ i =>
    have hnext := hbit i
    rw [hlow, Bool.xor_left_inj] at hnext
    rwa [Nat.add_comm]

theorem shiftBits_injective (n : Nat) {r t : BitVec 32} (h : shiftBits n r = shiftBits n t) : r = t := by
  induction n generalizing r t with
  | zero => exact h
  | succ n ih => exact shiftBit_injective (ih h)

theorem absorb_left_injective {r t : BitVec 32} (b : UInt8) (h : absorb r b = absorb t b) : r = t :=
  (BitVec.xor_left_inj _).mp (shiftBits_injective 8 h)

theorem register_injective (bs : Bytes) {r t : BitVec 32} (h : register r bs = register t bs) : r = t := by
  induction bs generalizing r t with
  | nil => exact h
  | cons b bs ih => exact absorb_left_injective b (ih h)

/-! ## Moving the register is linear -/

theorem shiftBit_xor (r t : BitVec 32) : shiftBit (r ^^^ t) = shiftBit r ^^^ shiftBit t := by
  apply BitVec.eq_of_getLsbD_eq
  intro i hi
  simp only [getLsbD_shiftBit, BitVec.getLsbD_xor, Bool.and_xor_distrib_right]
  rw [Bool.xor_assoc, Bool.xor_assoc, Bool.xor_left_comm (t.getLsbD (1 + i))]

theorem shiftBits_xor (n : Nat) (r t : BitVec 32) :
    shiftBits n (r ^^^ t) = shiftBits n r ^^^ shiftBits n t := by
  induction n generalizing r t with
  | zero => rfl
  | succ n ih => rw [shiftBits, shiftBits, shiftBits, shiftBit_xor, ih]

theorem shiftBits_add (m n : Nat) (r : BitVec 32) : shiftBits (m + n) r = shiftBits n (shiftBits m r) := by
  induction m generalizing r with
  | zero => rw [Nat.zero_add, shiftBits]
  | succ m ih => rw [Nat.succ_add, shiftBits, shiftBits, ih]

/-- A number whose low bits are clear only moves down. -/
theorem shiftBits_two_pow_mul (n k : Nat) (h : 2 ^ n * k < 2 ^ 32) :
    shiftBits n (BitVec.ofNat 32 (2 ^ n * k)) = BitVec.ofNat 32 k := by
  induction n with
  | zero => rw [Nat.pow_zero, Nat.one_mul, shiftBits]
  | succ n ih =>
    have hdouble : 2 ^ (n + 1) * k = 2 * (2 ^ n * k) := by
      rw [Nat.pow_succ, Nat.mul_comm (2 ^ n) 2, Nat.mul_assoc]
    rw [hdouble] at h ⊢
    have hlow : (BitVec.ofNat 32 (2 * (2 ^ n * k))).getLsbD 0 = false := by
      rw [BitVec.getLsbD_ofNat, Nat.testBit_zero, Nat.mul_mod_right]
      rfl
    have hshift : BitVec.ofNat 32 (2 * (2 ^ n * k)) >>> 1 = BitVec.ofNat 32 (2 ^ n * k) := by
      apply BitVec.eq_of_toNat_eq
      rw [BitVec.toNat_ushiftRight, BitVec.toNat_ofNat, BitVec.toNat_ofNat, Nat.shiftRight_eq_div_pow]
      omega
    rw [shiftBits, shiftBit, hlow, if_neg Bool.false_ne_true, hshift]
    exact ih (by omega)

/-! ## Taking in a word -/

/-- The number of octets, as the register holds it. -/
def word (bs : Bytes) : BitVec 32 := BitVec.ofNat 32 (Bytes.ofLE bs)

theorem word_cons (b : UInt8) (bs : Bytes) :
    word (b :: bs) = b.toBitVec.setWidth 32 ^^^ BitVec.ofNat 32 (2 ^ 8 * Bytes.ofLE bs) := by
  have hb : b.toNat < 2 ^ 8 := b.toNat_lt
  have hsum : Bytes.ofLE (b :: bs) = 2 ^ 8 * Bytes.ofLE bs + b.toNat := Nat.add_comm _ _
  have hwide : b.toBitVec.setWidth 32 = BitVec.ofNat 32 b.toNat := (BitVec.ofNat_toNat 32 b.toBitVec).symm
  apply BitVec.eq_of_getLsbD_eq
  intro i hi
  simp only [word, hwide, hsum, BitVec.getLsbD_xor, BitVec.getLsbD_ofNat, hi, decide_true, Bool.true_and,
    Nat.testBit_two_pow_mul_add _ hb, Nat.testBit_two_pow_mul]
  by_cases hlow : i < 8
  · simp [hlow, Nat.not_le.mpr hlow]
  · have hclear : b.toNat.testBit i = false :=
      Nat.testBit_lt_two_pow (Nat.lt_of_lt_of_le hb (Nat.pow_le_pow_right (by omega) (by omega)))
    simp [hlow, Nat.not_lt.mp hlow, hclear]

/-- Octets that the register has room for are taken in as one word: nothing of a later octet has left the
register when the last octet comes in. -/
theorem register_eq_shiftBits (r : BitVec 32) (bs : Bytes) (h : bs.length ≤ 4) :
    register r bs = shiftBits (8 * bs.length) (r ^^^ word bs) := by
  induction bs generalizing r with
  | nil => exact (BitVec.xor_zero).symm
  | cons b bs ih =>
    rw [List.length_cons] at h
    have hroom : 2 ^ 8 * Bytes.ofLE bs < 2 ^ 32 := by
      have hlt : Bytes.ofLE bs < 256 ^ 3 :=
        Nat.lt_of_lt_of_le (Bytes.ofLE_lt bs) (Nat.pow_le_pow_right (by omega) (by omega))
      omega
    calc register r (b :: bs)
        = shiftBits (8 * bs.length) (shiftBits 8 (r ^^^ b.toBitVec.setWidth 32) ^^^ word bs) :=
          ih (absorb r b) (by omega)
      _ = shiftBits (8 * bs.length) (shiftBits 8 (r ^^^ word (b :: bs))) := by
          rw [word_cons, ← BitVec.xor_assoc, shiftBits_xor 8 (r ^^^ _), shiftBits_two_pow_mul 8 _ hroom,
            word]
      _ = shiftBits (8 * (b :: bs).length) (r ^^^ word (b :: bs)) := by
          rw [← shiftBits_add, List.length_cons, Nat.mul_succ, Nat.add_comm]

theorem word_injective {bs cs : Bytes} (hlength : bs.length = cs.length) (hroom : bs.length ≤ 4)
    (h : word bs = word cs) : bs = cs := by
  have hsmall : 256 ^ bs.length ≤ 2 ^ 32 := Nat.pow_le_pow_right (by omega) hroom
  have hbs := Bytes.ofLE_lt bs
  have hcs := Bytes.ofLE_lt cs
  have hnumbers := congrArg BitVec.toNat h
  rw [word, word, BitVec.toNat_ofNat, BitVec.toNat_ofNat, Nat.mod_eq_of_lt (by omega),
    Nat.mod_eq_of_lt (by rw [← hlength] at hcs; omega)] at hnumbers
  rw [← Bytes.toLE_ofLE bs, ← Bytes.toLE_ofLE cs, hnumbers, hlength]

theorem eq_of_register_eq {r : BitVec 32} {bs cs : Bytes} (hlength : bs.length = cs.length)
    (hroom : bs.length ≤ 4) (h : register r bs = register r cs) : bs = cs := by
  rw [register_eq_shiftBits r bs hroom, register_eq_shiftBits r cs (hlength ▸ hroom), hlength] at h
  exact word_injective hlength hroom ((BitVec.xor_right_inj r).mp (shiftBits_injective _ h))

theorem register_append (r : BitVec 32) (bs cs : Bytes) :
    register r (bs ++ cs) = register (register r bs) cs := List.foldl_append

/-- Byte strings that agree but for at most four octets in a row and have one checksum agree. -/
theorem eq_of_crc32c_eq (before after : Bytes) {bs cs : Bytes} (hlength : bs.length = cs.length)
    (hroom : bs.length ≤ 4) (h : crc32c (before ++ (bs ++ after)) = crc32c (before ++ (cs ++ after))) :
    bs = cs := by
  have hregister : register (BitVec.allOnes 32) (before ++ (bs ++ after)) =
      register (BitVec.allOnes 32) (before ++ (cs ++ after)) :=
    BitVec.not_inj.mp (congrArg UInt32.toBitVec h)
  simp only [register_append] at hregister
  exact eq_of_register_eq hlength hroom (register_injective after hregister)

end Checksum

end DurableLists

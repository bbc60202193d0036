import DurableLists.Text.Decimal

/-!
# Reading what was written in decimal

A number in its decimal form is read back if its type holds it (`readInt64_render`,
`readUInt32_render`). The form is made of digits and perhaps a minus sign, so it holds no separator and
is text.
-/

set_option autoImplicit false

namespace DurableLists

namespace Decimal

/-! ## Digits -/

theorem toNat_digit {d : Nat} (h : d < 10) : (digit d).toNat = 48 + d := by
  rw [digit, UInt8.toNat_ofNat']
  omega

theorem digitValue?_digit {d : Nat} (h : d < 10) : digitValue? (digit d) = some d := by
  rw [digitValue?, toNat_digit h, if_pos (by omega)]
  congr 1
  omega

theorem mem_digits {n : Nat} {b : UInt8} (h : b ∈ digits n) : 48 ≤ b.toNat ∧ b.toNat ≤ 57 := by
  fun_induction digits n with
  | case1 n hn =>
    rw [List.mem_singleton.mp h, toNat_digit hn]
    omega
  | case2 n hn ih =>
    rcases List.mem_append.mp h with h | h
    · exact ih h
    · rw [List.mem_singleton.mp h, toNat_digit (Nat.mod_lt n (by omega))]
      omega

theorem digits_ne_nil (n : Nat) : digits n ≠ [] := by
  rw [digits]
  split <;> simp

theorem readDigits_append (limit : Nat) (beyond : Fault) (value middle : Nat) (front rest : Bytes)
    (h : readDigits limit beyond value front = .ok middle) :
    readDigits limit beyond value (front ++ rest) = readDigits limit beyond middle rest := by
  induction front generalizing value with
  | nil =>
    cases h
    rfl
  | cons b front ih =>
    rw [List.cons_append, readDigits]
    rw [readDigits] at h
    cases hb : digitValue? b with
    | none => simp [hb] at h
    | some d =>
      simp only [hb] at h ⊢
      split at h
      · rename_i hlimit
        rw [if_pos hlimit]
        exact ih _ h
      · cases h

theorem readDigits_digits {limit : Nat} (beyond : Fault) {n : Nat} (h : n ≤ limit) :
    readDigits limit beyond 0 (digits n) = .ok n := by
  fun_induction digits n with
  | case1 n hn =>
    rw [readDigits, digitValue?_digit hn]
    simp only [Nat.mul_zero, Nat.zero_add]
    rw [if_pos h, readDigits]
  | case2 n hn ih =>
    have hdigit := Nat.mod_lt n (show 10 > 0 by omega)
    have hvalue : 10 * (n / 10) + n % 10 = n := Nat.div_add_mod n 10
    rw [readDigits_append limit beyond 0 (n / 10) _ _ (ih (by omega)), readDigits,
      digitValue?_digit hdigit]
    simp only [hvalue]
    rw [if_pos h, readDigits]

theorem readMagnitude_digits {limit : Nat} (beyond : Fault) {n : Nat} (h : n ≤ limit) :
    readMagnitude limit beyond (digits n) = .ok n := by
  have hread := readDigits_digits beyond h
  cases hd : digits n with
  | nil => exact absurd hd (digits_ne_nil n)
  | cons b bs =>
    rw [hd] at hread
    exact hread

/-! ## Literals -/

theorem render_natCast (n : Nat) : render (n : Int) = digits n := rfl

theorem mem_render {i : Int} {b : UInt8} (h : b ∈ render i) :
    b.toNat = 45 ∨ 48 ≤ b.toNat ∧ b.toNat ≤ 57 := by
  cases i with
  | ofNat n => exact Or.inr (mem_digits h)
  | negSucc n =>
    rcases List.mem_cons.mp h with rfl | h
    · exact Or.inl rfl
    · exact Or.inr (mem_digits h)

theorem exists_digits_cons (n : Nat) : ∃ b bs, digits n = b :: bs ∧ b ≠ 43 ∧ b ≠ 45 := by
  cases hd : digits n with
  | nil => exact absurd hd (digits_ne_nil n)
  | cons b bs =>
    have hb := mem_digits (n := n) (b := b) (by rw [hd]; simp)
    refine ⟨b, bs, rfl, ?_, ?_⟩
    · rintro rfl
      exact absurd hb.1 (by decide)
    · rintro rfl
      exact absurd hb.1 (by decide)

theorem readInt64_render (i : Int64) : readInt64 (render i.toInt) = .ok i := by
  have hmax := Int64.toInt_lt i
  have hmin := Int64.le_toInt i
  have hback : Int64.ofInt i.toInt = i := Int64.ofInt_toInt i
  cases hi : i.toInt with
  | ofNat n =>
    rw [hi] at hmax hback
    obtain ⟨b, bs, hd, hplus, hminus⟩ := exists_digits_cons n
    have hlimit : n ≤ half - 1 := by
      have hn : (n : Int) < 2 ^ 63 := hmax
      have hhalf : half = 9223372036854775808 := rfl
      omega
    have hread := readMagnitude_digits .tooLarge hlimit
    rw [render, hd] at *
    rw [readInt64.eq_4 _ (by simp) (fun _ e => hplus (List.cons.inj e).1)
      (fun _ e => hminus (List.cons.inj e).1), hread]
    exact congrArg Except.ok hback
  | negSucc n =>
    rw [hi] at hmin hback
    have hlimit : n + 1 ≤ half := by
      have hn : -(2 ^ 63 : Int) ≤ Int.negSucc n := hmin
      have hhalf : half = 9223372036854775808 := rfl
      omega
    have hread := readMagnitude_digits .tooSmall hlimit
    rw [render, readInt64, hread]
    exact congrArg Except.ok hback

theorem readUInt32_render (n : UInt32) : readUInt32 (render n.toNat) = .ok n := by
  obtain ⟨b, bs, hd, hplus, -⟩ := exists_digits_cons n.toNat
  have hlimit : n.toNat ≤ UInt32.size - 1 := by
    have hn := n.toNat_lt
    have hsize : UInt32.size = 4294967296 := rfl
    omega
  have hread := readMagnitude_digits .tooLarge hlimit
  rw [render_natCast]
  rw [hd] at hread ⊢
  rw [readUInt32.eq_3 _ (by simp) (fun _ e => hplus (List.cons.inj e).1), hread]
  exact congrArg Except.ok UInt32.ofNat_toNat

end Decimal

end DurableLists

import Mathlib.Algebra.Group.Int.Defs
import DurableLists.Proofs.Text.Decimal
import DurableLists.Proofs.Text.Utf8

/-!
# Decimal literals

`Decimal.Literal` is the grammar of integer literals: one or more digits, after a plus sign or none, or, where the type
has negative values, after a minus sign. A reader accepts the literals whose value its type holds and no other octets,
and gives their value (`readInt64_eq_ok_iff`, `readUInt32_eq_ok_iff`). Leading zeros are digits as any others.
-/

set_option autoImplicit false

namespace DurableLists

theorem map_eq_ok_iff {ε α β : Type} {outcome : Except ε α} {f : α → β} {b : β} :
    outcome.map f = .ok b ↔ ∃ a, outcome = .ok a ∧ f a = b := by
  cases outcome with
  | error e => exact ⟨nofun, nofun⟩
  | ok a => simp [Except.map]

theorem bind_eq_ok_iff {ε α β : Type} {outcome : Except ε α} {f : α → Except ε β} {b : β} :
    outcome >>= f = .ok b ↔ ∃ a, outcome = .ok a ∧ f a = .ok b := by
  cases outcome with
  | error e => exact ⟨nofun, nofun⟩
  | ok a => simp [bind, Except.bind]

theorem map_eq_error_iff {ε α β : Type} {outcome : Except ε α} {f : α → β} {e : ε} :
    outcome.map f = .error e ↔ outcome = .error e := by
  cases outcome with
  | error e => simp [Except.map]
  | ok a => exact ⟨nofun, nofun⟩

theorem bind_eq_error_iff {ε α β : Type} {outcome : Except ε α} {f : α → Except ε β} {e : ε} :
    outcome >>= f = .error e ↔ outcome = .error e ∨ ∃ a, outcome = .ok a ∧ f a = .error e := by
  cases outcome with
  | error e => simp [bind, Except.bind]
  | ok a => simp [bind, Except.bind]

namespace Decimal

/-! ## Grammar -/

def IsDigit (b : UInt8) : Prop := 48 ≤ b.toNat ∧ b.toNat ≤ 57

/-- The number that digits stand for, after others that stand for `value`. -/
def valueOf (value : Nat) (bs : Bytes) : Nat := bs.foldl (fun value b => 10 * value + (b.toNat - 48)) value

/-- Digits, at least one of them, and the number that they stand for. -/
structure Numeral (bs : Bytes) (n : Nat) : Prop where
  nonempty : bs ≠ []
  digits : ∀ b ∈ bs, IsDigit b
  value : valueOf 0 bs = n

/-- A literal of an integer. -/
inductive Literal (signed : Bool) : Bytes → Int → Prop where
  | plain {bs : Bytes} {n : Nat} (numeral : Numeral bs n) : Literal signed bs n
  /-- The octet of `+`. -/
  | plus {bs : Bytes} {n : Nat} (numeral : Numeral bs n) : Literal signed (43 :: bs) n
  /-- The octet of `-`. -/
  | minus {bs : Bytes} {n : Nat} (negative : signed = true) (numeral : Numeral bs n) : Literal signed (45 :: bs) (-n)

variable {b : UInt8} {bs : Bytes} {limit value n : Nat} {beyond : Fault} {signed : Bool} {i : Int}

/-! ## Digits -/

theorem digitValue?_eq_some_iff {d : Nat} : digitValue? b = some d ↔ IsDigit b ∧ b.toNat - 48 = d := by
  rw [digitValue?, IsDigit]
  split
  · rename_i hdigit
    simp [hdigit]
  · rename_i hother
    simp [hother]

theorem le_valueOf (value : Nat) (bs : Bytes) : value ≤ valueOf value bs := by
  induction bs generalizing value with
  | nil => exact Nat.le_refl value
  | cons b bs ih =>
    have hrest := ih (10 * value + (b.toNat - 48))
    have hstep : valueOf value (b :: bs) = valueOf (10 * value + (b.toNat - 48)) bs := rfl
    omega

/-- Digits are read up to a limit; the value only grows, so it suffices to look at the last one. -/
theorem readDigits_eq_ok_iff (hvalue : value ≤ limit) : readDigits limit beyond value bs = .ok n ↔
    (∀ b ∈ bs, IsDigit b) ∧ valueOf value bs = n ∧ n ≤ limit := by
  induction bs generalizing value with
  | nil =>
    have hnone : valueOf value [] = value := rfl
    rw [readDigits, Except.ok.injEq, hnone]
    constructor
    · rintro rfl
      exact ⟨fun b hb => absurd hb List.not_mem_nil, rfl, hvalue⟩
    · rintro ⟨-, rfl, -⟩
      rfl
  | cons b bs ih =>
    rw [readDigits, List.forall_mem_cons]
    cases hb : digitValue? b with
    | none =>
      have hother : ¬IsDigit b := by
        intro hdigit
        rw [digitValue?_eq_some_iff.mpr ⟨hdigit, rfl⟩] at hb
        cases hb
      constructor
      · intro h
        cases h
      · intro h
        exact absurd h.1.1 hother
    | some d =>
      obtain ⟨hdigit, rfl⟩ := digitValue?_eq_some_iff.mp hb
      have hstep : valueOf value (b :: bs) = valueOf (10 * value + (b.toNat - 48)) bs := rfl
      rw [hstep]
      simp only
      split
      · rename_i hwithin
        rw [ih hwithin]
        simp only [hdigit, true_and]
      · rename_i hover
        have hgrows := le_valueOf (10 * value + (b.toNat - 48)) bs
        constructor
        · intro h
          cases h
        · rintro ⟨-, rfl, hlimit⟩
          omega

theorem readMagnitude_eq_ok_iff : readMagnitude limit beyond bs = .ok n ↔ Numeral bs n ∧ n ≤ limit := by
  cases bs with
  | nil => exact ⟨nofun, fun h => absurd rfl h.1.nonempty⟩
  | cons b bs =>
    rw [readMagnitude, readDigits_eq_ok_iff (Nat.zero_le limit)]
    constructor
    · rintro ⟨hdigits, hvalue, hlimit⟩
      exact ⟨⟨List.cons_ne_nil b bs, hdigits, hvalue⟩, hlimit⟩
    · rintro ⟨⟨-, hdigits, hvalue⟩, hlimit⟩
      exact ⟨hdigits, hvalue, hlimit⟩

/-! ## Literals -/

theorem Numeral.head (h : Numeral (b :: bs) n) : b ≠ 43 ∧ b ≠ 45 := by
  obtain ⟨hlow, -⟩ := h.digits b List.mem_cons_self
  constructor
  · rintro rfl
    exact absurd hlow (by decide)
  · rintro rfl
    exact absurd hlow (by decide)

theorem Literal.ne_nil (h : Literal signed bs i) : bs ≠ [] := by
  cases h with
  | plain numeral => exact numeral.nonempty
  | plus numeral => exact List.cons_ne_nil _ _
  | minus negative numeral => exact List.cons_ne_nil _ _

theorem Literal.mem (h : Literal signed bs i) (hb : b ∈ bs) : b = 43 ∨ b = 45 ∨ IsDigit b := by
  cases h with
  | plain numeral => exact Or.inr (Or.inr (numeral.digits b hb))
  | plus numeral =>
    rcases List.mem_cons.mp hb with rfl | hb
    · exact Or.inl rfl
    · exact Or.inr (Or.inr (numeral.digits b hb))
  | minus negative numeral =>
    rcases List.mem_cons.mp hb with rfl | hb
    · exact Or.inr (Or.inl rfl)
    · exact Or.inr (Or.inr (numeral.digits b hb))

theorem literal_plus_iff : Literal signed (43 :: bs) i ↔ ∃ n : Nat, Numeral bs n ∧ i = n := by
  constructor
  · intro h
    cases h with
    | plain numeral => exact absurd rfl numeral.head.1
    | plus numeral => exact ⟨_, numeral, rfl⟩
  · rintro ⟨n, hnumeral, rfl⟩
    exact .plus hnumeral

theorem literal_minus_iff : Literal signed (45 :: bs) i ↔ signed = true ∧ ∃ n : Nat, Numeral bs n ∧ i = -n := by
  constructor
  · intro h
    cases h with
    | plain numeral => exact absurd rfl numeral.head.2
    | minus negative numeral => exact ⟨negative, _, numeral, rfl⟩
  · rintro ⟨hsigned, n, hnumeral, rfl⟩
    exact .minus hsigned hnumeral

theorem literal_plain_iff (hplus : ∀ rest, bs ≠ 43 :: rest) (hminus : ∀ rest, bs ≠ 45 :: rest) :
    Literal signed bs i ↔ ∃ n : Nat, Numeral bs n ∧ i = n := by
  constructor
  · intro h
    cases h with
    | plain numeral => exact ⟨_, numeral, rfl⟩
    | plus numeral => exact absurd rfl (hplus _)
    | minus negative numeral => exact absurd rfl (hminus _)
  · rintro ⟨n, hnumeral, rfl⟩
    exact .plain hnumeral

/-! ## Readers -/

/-- A magnitude that gets a sign is read exactly if 64 bits hold the signed number. -/
theorem readSigned_eq_ok_iff {sign : Int → Int} {v : Int64}
    (hlimit : ∀ n : Nat, n ≤ limit ↔ -2 ^ 63 ≤ sign n ∧ sign n < 2 ^ 63) :
    Except.map (fun i => Int64.ofInt (sign i)) (do
      let n ← readMagnitude limit beyond bs
      pure (n : Int)) = .ok v ↔ ∃ n : Nat, Numeral bs n ∧ v.toInt = sign n := by
  have hread (n : Nat) : readMagnitude limit beyond bs = .ok n ∧ Int64.ofInt (sign n) = v ↔
      Numeral bs n ∧ v.toInt = sign n := by
    rw [readMagnitude_eq_ok_iff, and_assoc]
    refine and_congr_right fun _ => ?_
    constructor
    · rintro ⟨hn, rfl⟩
      obtain ⟨hlow, hhigh⟩ := (hlimit n).mp hn
      exact Int64.toInt_ofInt_of_le hlow hhigh
    · intro hv
      have hlow := v.le_toInt
      have hhigh := v.toInt_lt
      rw [hv] at hlow hhigh
      refine ⟨(hlimit n).mpr ⟨hlow, hhigh⟩, ?_⟩
      rw [← hv, Int64.ofInt_toInt]
  rw [← exists_congr hread]
  cases readMagnitude limit beyond bs with
  | error fault => exact ⟨nofun, nofun⟩
  | ok n => simp [bind, Except.bind, pure, Except.pure, Except.map]

theorem readInt64_eq_ok_iff {v : Int64} : readInt64 bs = .ok v ↔ Literal true bs v.toInt := by
  have hhalf : half = 9223372036854775808 := rfl
  have hpositive (n : Nat) : n ≤ half - 1 ↔ -2 ^ 63 ≤ (n : Int) ∧ (n : Int) < 2 ^ 63 := by omega
  have hnegative (n : Nat) : n ≤ half ↔ -2 ^ 63 ≤ -(n : Int) ∧ -(n : Int) < 2 ^ 63 := by omega
  rw [readInt64.eq_def]
  split
  · exact ⟨nofun, fun h => absurd rfl h.ne_nil⟩
  · exact (readSigned_eq_ok_iff hpositive).trans literal_plus_iff.symm
  · refine (readSigned_eq_ok_iff hnegative).trans (Iff.symm ?_)
    rw [literal_minus_iff]
    exact and_iff_right rfl
  · rename_i hplus hminus
    exact (readSigned_eq_ok_iff hpositive).trans (literal_plain_iff hplus hminus).symm

theorem readUInt32_eq_ok_iff {v : UInt32} : readUInt32 bs = .ok v ↔ Literal false bs v.toNat := by
  have hread (bs : Bytes) : (readMagnitude (UInt32.size - 1) .tooLarge bs).map UInt32.ofNat = .ok v ↔
      ∃ n : Nat, Numeral bs n ∧ (v.toNat : Int) = n := by
    rw [map_eq_ok_iff]
    refine exists_congr fun n => ?_
    rw [readMagnitude_eq_ok_iff, and_assoc, Int.natCast_inj]
    refine and_congr_right fun _ => ?_
    have hsize : UInt32.size = 4294967296 := rfl
    constructor
    · rintro ⟨hn, rfl⟩
      rw [UInt32.toNat_ofNat']
      omega
    · rintro rfl
      have hv := v.toNat_lt
      exact ⟨by omega, UInt32.ofNat_toNat⟩
  rw [readUInt32.eq_def]
  split
  · exact ⟨nofun, fun h => absurd rfl h.ne_nil⟩
  · rw [hread, literal_plus_iff]
  · rename_i hplus
    rw [hread]
    by_cases hminus : ∀ rest, bs ≠ 45 :: rest
    · rw [literal_plain_iff (fun rest => hplus rest) hminus]
    · -- A minus sign is no digit, and there are no negative values.
      simp only [not_forall, not_not] at hminus
      obtain ⟨rest, rfl⟩ := hminus
      rw [literal_minus_iff]
      refine ⟨?_, fun h => by cases h.1⟩
      rintro ⟨n, hnumeral, -⟩
      exact absurd rfl hnumeral.head.2

end Decimal

end DurableLists

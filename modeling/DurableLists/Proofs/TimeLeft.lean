import Mathlib.Algebra.Group.Nat.Defs
import DurableLists.Proofs.Store

/-!
# The time that a list has left

A key with an expiry that is not persistent has expired at a second exactly if the second is past the deadline
(`Expiry.isExpired_iff`), and the seconds left are those up to the deadline (`Expiry.toNat_remaining`). So an answer above
zero tells exactly when the key expires. Zero is answered for a key that lives forever, but also in the last second of a
key that does not: there it has not expired, and in every later second it has (`Store.ttl_exact`).
-/

set_option autoImplicit false

namespace DurableLists

namespace Expiry

variable {e : Expiry} {now : UInt64}

/-- The last second at which a key has not expired, unless it lives forever. -/
def deadline (e : Expiry) : Nat := e.setAt.toNat + e.ttl.toNat

theorem isExpired_iff : e.isExpired now = true ↔ e.isPersistent = false ∧ e.deadline < now.toNat := by
  have hpassed : e.ttl.toNat < now.toNat - e.setAt.toNat ↔ e.setAt.toNat + e.ttl.toNat < now.toNat := by omega
  rw [isExpired, Bool.and_eq_true, Bool.not_eq_true', decide_eq_true_iff, deadline, hpassed]

theorem isExpired_of_persistent (h : e.isPersistent = true) : e.isExpired now = false := by
  rw [isExpired, h]
  rfl

/-- The seconds left are those up to the deadline, and a time to live has room for them. -/
theorem toNat_remaining (hlimited : e.isPersistent = false) (hset : e.setAt ≤ now) (hfits : e.deadline < 2 ^ 64) :
    (e.remaining now).toNat = e.deadline - now.toNat := by
  have hpast : e.setAt.toNat ≤ now.toNat := UInt64.le_iff_toNat_le.mp hset
  have httl : e.ttl.toNat < 2 ^ 32 := e.ttl.toNat_lt
  have hlast : UInt64.size - 1 = 2 ^ 64 - 1 := rfl
  have hcap : UInt32.size - 1 = 2 ^ 32 - 1 := rfl
  rw [deadline] at hfits ⊢
  simp only [remaining, hlimited, Bool.false_eq_true, if_false, hlast, hcap]
  rw [UInt32.toNat_ofNat']
  omega

end Expiry

namespace Store

variable {s : Store} {key : Bytes} {now : UInt64} {expiry : Expiry}

/-! ## Keys that last, and keys that expire -/

/-- Whether there is a list or an expiry under a key, and no expiry that will pass. -/
structure Persists (s : Store) (key : Bytes) : Prop where
  known : s.list? key ≠ none ∨ s.expiry? key ≠ none
  persistent : ∀ expiry, s.expiry? key = some expiry → expiry.isPersistent = true

/-- Whether a key has an expiry that will pass, and has not passed at a second. -/
structure Pending (s : Store) (key : Bytes) (now : UInt64) (expiry : Expiry) : Prop where
  found : s.expiry? key = some expiry
  limited : expiry.isPersistent = false
  within : now.toNat ≤ expiry.deadline

/-- Whether a second is the last one before a key expires. -/
def Due (s : Store) (key : Bytes) (now : UInt64) : Prop :=
  ∃ expiry, s.Pending key now expiry ∧ now.toNat = expiry.deadline

theorem Persists.isExpired (h : s.Persists key) (later : UInt64) : s.isExpired key later = false := by
  cases hexpiry : s.expiry? key with
  | none => exact isExpired_of_expiry?_none hexpiry later
  | some expiry =>
    rw [isExpired_of_expiry? hexpiry]
    exact Expiry.isExpired_of_persistent (h.persistent expiry hexpiry)

/-- The key expires when the seconds left have passed. -/
theorem Pending.isExpired_iff (h : s.Pending key now expiry) (hset : expiry.setAt ≤ now)
    (hfits : expiry.deadline < 2 ^ 64) (later : UInt64) :
    s.isExpired key later = true ↔ now.toNat + (expiry.remaining now).toNat < later.toNat := by
  have hleft := Expiry.toNat_remaining h.limited hset hfits
  have hwithin := h.within
  rw [isExpired_of_expiry? h.found, Expiry.isExpired_iff, and_iff_right h.limited, hleft]
  omega

theorem Pending.due_iff (h : s.Pending key now expiry) (hset : expiry.setAt ≤ now) (hfits : expiry.deadline < 2 ^ 64) :
    s.Due key now ↔ expiry.remaining now = 0 := by
  have hleft := Expiry.toNat_remaining h.limited hset hfits
  have hwithin := h.within
  have hzero : expiry.remaining now = 0 ↔ now.toNat = expiry.deadline := by
    rw [← UInt32.toNat_inj, hleft, UInt32.toNat_zero]
    omega
  rw [hzero]
  refine ⟨?_, fun hlast => ⟨expiry, h, hlast⟩⟩
  rintro ⟨other, hother, hlast⟩
  cases hother.found.symm.trans h.found
  exact hlast

/-! ## What is reported -/

theorem Persists.ttl (h : s.Persists key) (now : UInt64) : s.ttl key now = .ok 0 := by
  have hlive := h.isExpired now
  rw [Store.ttl]
  cases hexpiry : s.expiry? key with
  | none =>
    have hlist : s.list? key ≠ none := h.known.resolve_right fun hsome => hsome hexpiry
    simp only [containsKey_eq_isSome, Option.isSome_iff_ne_none.mpr hlist, if_true]
  | some expiry =>
    rw [isExpired_of_expiry? hexpiry] at hlive
    simp only [hlive, Expiry.remaining, h.persistent expiry hexpiry, Bool.false_eq_true, if_false, if_true]

theorem Pending.ttl (h : s.Pending key now expiry) : s.ttl key now = .ok (expiry.remaining now) := by
  have hlive : expiry.isExpired now = false := by
    rw [Bool.eq_false_iff, Ne, Expiry.isExpired_iff]
    exact fun hpassed => Nat.not_lt.mpr h.within hpassed.2
  simp only [Store.ttl, h.found, hlive, Bool.false_eq_true, if_false]

/-- What is reported of a key at a second, by what there is under the key. -/
inductive Reports (s : Store) (key : Bytes) (now : UInt64) : Except Error UInt32 → Prop where
  | expired (passed : s.isExpired key now = true) : Reports s key now (.error .keyNotFound)
  | unknown (list : s.list? key = none) (expiry : s.expiry? key = none) : Reports s key now (.error .keyNotFound)
  | forever (persists : s.Persists key) : Reports s key now (.ok 0)
  | left {expiry : Expiry} (pending : s.Pending key now expiry) : Reports s key now (.ok (expiry.remaining now))

theorem reports_ttl (s : Store) (key : Bytes) (now : UInt64) : s.Reports key now (s.ttl key now) := by
  cases hexpiry : s.expiry? key with
  | none =>
    by_cases hlist : s.list? key = none
    · rw [ttl_of_unknown hlist hexpiry]
      exact .unknown hlist hexpiry
    · have hpersists : s.Persists key := ⟨Or.inl hlist, by simp [hexpiry]⟩
      rw [hpersists.ttl]
      exact .forever hpersists
  | some expiry =>
    cases hlimited : expiry.isPersistent with
    | true =>
      have hpersists : s.Persists key := ⟨Or.inr (by simp [hexpiry]), by simp [hexpiry, hlimited]⟩
      rw [hpersists.ttl]
      exact .forever hpersists
    | false =>
      by_cases hpassed : expiry.deadline < now.toNat
      · have hexpired : s.isExpired key now = true := by
          rw [isExpired_of_expiry? hexpiry]
          exact Expiry.isExpired_iff.mpr ⟨hlimited, hpassed⟩
        rw [ttl_of_isExpired hexpired]
        exact .expired hexpired
      · have hpending : s.Pending key now expiry := ⟨hexpiry, hlimited, Nat.le_of_not_lt hpassed⟩
        rw [hpending.ttl]
        exact .left hpending

/-- The time that a key is reported to have left, at a second not before its expiry was set. It is refused for a key that
has expired, or that has neither a list nor an expiry, and for no other. A number of seconds above zero tells exactly
when the key expires. Zero is reported for a key that lives forever, but also in the last second of a key that does not:
such a key has expired in every later second. -/
theorem ttl_exact (hentry : ∀ expiry, s.expiry? key = some expiry → expiry.setAt ≤ now ∧ expiry.deadline < 2 ^ 64) :
    (s.ttl key now = .error .keyNotFound ↔
      s.isExpired key now = true ∨ s.list? key = none ∧ s.expiry? key = none) ∧
    (∀ cause, s.ttl key now = .error cause → cause = .keyNotFound) ∧
    (∀ left : UInt32, s.ttl key now = .ok left → 0 < left → ∀ later : UInt64, now ≤ later →
      (s.isExpired key later = true ↔ now.toNat + left.toNat < later.toNat)) ∧
    (s.ttl key now = .ok 0 ↔ s.Persists key ∨ s.Due key now) ∧
    (s.Persists key → ∀ later, s.isExpired key later = false) ∧
    (s.Due key now → ∀ later, now ≤ later → (s.isExpired key later = true ↔ now < later)) := by
  have hreports := s.reports_ttl key now
  refine ⟨⟨fun hrefused => ?_, ?_⟩, fun cause hrefused => ?_, fun left hleft hpositive later _ => ?_,
    ⟨fun hzero => ?_, ?_⟩, Persists.isExpired, ?_⟩
  · rw [hrefused] at hreports
    cases hreports with
    | expired passed => exact Or.inl passed
    | unknown list expiry => exact Or.inr ⟨list, expiry⟩
  · rintro (hexpired | ⟨hlist, hexpiry⟩)
    · exact ttl_of_isExpired hexpired
    · exact ttl_of_unknown hlist hexpiry now
  · rw [hrefused] at hreports
    cases hreports <;> rfl
  · rw [hleft] at hreports
    cases hreports with
    | forever persists => exact absurd hpositive (by decide)
    | left pending =>
      obtain ⟨hset, hfits⟩ := hentry _ pending.found
      exact pending.isExpired_iff hset hfits later
  · generalize hanswer : s.ttl key now = answer at hreports
    rw [hzero] at hanswer
    cases hreports with
    | expired passed => cases hanswer
    | unknown list expiry => cases hanswer
    | forever persists => exact Or.inl persists
    | left pending =>
      obtain ⟨hset, hfits⟩ := hentry _ pending.found
      exact Or.inr ((pending.due_iff hset hfits).mpr (Except.ok.inj hanswer).symm)
  · rintro (hpersists | ⟨expiry, hpending, hlast⟩)
    · exact hpersists.ttl now
    · obtain ⟨hset, hfits⟩ := hentry expiry hpending.found
      rw [hpending.ttl, (hpending.due_iff hset hfits).mp ⟨expiry, hpending, hlast⟩]
  · rintro ⟨expiry, hpending, hlast⟩ later -
    obtain ⟨hset, hfits⟩ := hentry expiry hpending.found
    rw [hpending.isExpired_iff hset hfits later, (hpending.due_iff hset hfits).mp ⟨expiry, hpending, hlast⟩,
      UInt64.lt_iff_toNat_lt]
    exact Iff.rfl

/-! ## A list in its last second -/

/-- A list of one element that was given five seconds to live at second 100. -/
def sampleAging : Store := ((∅ : Store).putList [107] [[97]]).putExpiry [107] ⟨5, 100⟩

theorem expiry?_sampleAging : sampleAging.expiry? [107] = some ⟨5, 100⟩ := by
  rw [sampleAging, expiry?_putExpiry, if_pos rfl]

/-- Zero is reported, as for a list that lives forever, and a second later the list has expired. -/
theorem ttl_sampleAging :
    (∀ expiry, sampleAging.expiry? [107] = some expiry → expiry.setAt ≤ 105 ∧ expiry.deadline < 2 ^ 64) ∧
      sampleAging.ttl [107] 105 = .ok 0 ∧ sampleAging.isExpired [107] 106 = true := by
  have hentry : ∀ expiry, sampleAging.expiry? [107] = some expiry →
      expiry.setAt ≤ 105 ∧ expiry.deadline < 2 ^ 64 := by
    intro expiry hexpiry
    cases expiry?_sampleAging.symm.trans hexpiry
    decide
  have hdue : sampleAging.Due [107] 105 := ⟨⟨5, 100⟩, ⟨expiry?_sampleAging, rfl, by decide⟩, rfl⟩
  obtain ⟨-, -, -, hzero, -, hlast⟩ := ttl_exact hentry
  exact ⟨hentry, hzero.mpr (Or.inr hdue), (hlast hdue 106 (by decide)).mpr (by decide)⟩

end Store

end DurableLists

import Mathlib.Algebra.Group.Int.Defs
import Mathlib.Algebra.Group.Nat.Defs
import DurableLists.Span

/-!
# Resolved offsets

A pair of offsets selects the positions of a list from the place of one to the place of the other. Resolving it gives
the span of just these positions, or refuses it if there are none (`Span.resolve_cases`). In words of 64 bits the same
is computed, and no number on the way is beyond them (`Span.resolve?_eq`).
-/

set_option autoImplicit false

namespace DurableLists

namespace Span

variable {start stop : Int64} {size : Nat} {span : Span}

/-- Whether two offsets select a position of a list of a size. -/
def Selects (start stop : Int64) (size i : Nat) : Prop := i < size ∧ place start size ≤ i ∧ i ≤ place stop size

instance (start stop : Int64) (size i : Nat) : Decidable (Selects start stop size i) :=
  inferInstanceAs (Decidable (_ ∧ _ ∧ _))

/-- Whether a span is inside a list of a size and is made of the positions that two offsets select. -/
structure Covers (start stop : Int64) (size : Nat) (span : Span) : Prop where
  ordered : span.first ≤ span.last
  inside : span.last < size
  selects : ∀ i, Selects start stop size i ↔ span.first ≤ i ∧ i ≤ span.last

theorem Covers.selects_first (h : span.Covers start stop size) : Selects start stop size span.first :=
  (h.selects span.first).mpr ⟨Nat.le_refl _, h.ordered⟩

theorem resolve_cases (start stop : Int64) (size : Nat) :
    (∃ span, resolve start stop size = .ok span ∧ span.Covers start stop size) ∨
      (resolve start stop size = .error .invalidRange ∧ ∀ i, ¬Selects start stop size i) := by
  rw [resolve]
  split
  · refine .inr ⟨rfl, fun i hi => ?_⟩
    obtain ⟨hinside, hstart, hstop⟩ := hi
    -- A position that is selected is between the bounds also after they are moved into the list.
    omega
  · refine .inl ⟨_, rfl, ?_, ?_, fun i => ?_⟩
    · change Int.toNat _ ≤ Int.toNat _
      omega
    · change Int.toNat _ < size
      omega
    · change i < size ∧ _ ↔ Int.toNat _ ≤ i ∧ i ≤ Int.toNat _
      omega

/-- Two offsets are resolved if and only if they select a position. -/
theorem resolve_eq_ok_iff : (∃ span, resolve start stop size = .ok span) ↔ ∃ i, Selects start stop size i := by
  obtain ⟨span, hspan, hcovers⟩ | ⟨herror, hnone⟩ := resolve_cases start stop size
  · exact ⟨fun _ => ⟨_, hcovers.selects_first⟩, fun _ => ⟨span, hspan⟩⟩
  · refine ⟨?_, fun ⟨i, hi⟩ => absurd hi (hnone i)⟩
    rintro ⟨span, hspan⟩
    cases herror.symm.trans hspan

theorem covers_of_resolve (h : resolve start stop size = .ok span) : span.Covers start stop size := by
  obtain ⟨found, hfound, hcovers⟩ | ⟨herror, -⟩ := resolve_cases start stop size
  · cases hfound.symm.trans h
    exact hcovers
  · cases herror.symm.trans h

theorem of_resolve_error {e : Error} (h : resolve start stop size = .error e) :
    e = .invalidRange ∧ ∀ i, ¬Selects start stop size i := by
  obtain ⟨found, hfound, -⟩ | ⟨herror, hnone⟩ := resolve_cases start stop size
  · cases hfound.symm.trans h
  · cases herror.symm.trans h
    exact ⟨rfl, hnone⟩

theorem slice_ne_nil_of_resolve {items : List Bytes} (h : resolve start stop items.length = .ok span) :
    span.slice items ≠ [] := by
  have hcovers := covers_of_resolve h
  have hordered := hcovers.ordered
  have hinside := hcovers.inside
  rw [slice, Ne, List.drop_eq_nil_iff, List.length_take]
  omega

/-! ## In words -/

/-- A number as a word of 64 bits, if it is not beyond them. -/
def word? (i : Int) : Option Int64 := if -2 ^ 63 ≤ i ∧ i < 2 ^ 63 then some (Int64.ofInt i) else none

/-- The position that an offset names, in words. -/
def place? (offset size : Int64) : Option Int64 :=
  if offset < 0 then word? (size.toInt + offset.toInt) else some offset

/-- The span that two offsets select, in words: there is none if a number on the way is beyond them. -/
def resolve? (start stop : Int64) (size : Nat) : Option (Except Error Span) := do
  let size ← word? size
  let first := max (← place? start size) 0
  let last := min (← place? stop size) (← word? (size.toInt - 1))
  if last < 0 ∨ size ≤ first ∨ last < first then return .error .invalidRange
  return .ok ⟨first.toInt.toNat, last.toInt.toNat⟩

theorem exists_word? {i : Int} (hlow : -2 ^ 63 ≤ i) (hhigh : i < 2 ^ 63) :
    ∃ word, word? i = some word ∧ word.toInt = i := by
  refine ⟨Int64.ofInt i, if_pos ⟨hlow, hhigh⟩, ?_⟩
  exact Int64.toInt_ofInt_of_le hlow hhigh

theorem exists_place? (offset : Int64) {size : Nat} {word : Int64} (hword : word.toInt = size) :
    ∃ position, place? offset word = some position ∧ position.toInt = place offset size := by
  have hsize : (size : Int) < 2 ^ 63 := hword ▸ Int64.toInt_lt word
  -- Only a negative offset is added to, and the size is not negative.
  have hlow : -2 ^ 63 ≤ offset.toInt := Int64.le_toInt offset
  have hsign : offset < 0 ↔ offset.toInt < 0 := Int64.lt_iff_toInt_lt
  rw [place?, place, hword]
  by_cases hnegative : offset.toInt < 0
  · rw [if_pos (hsign.mpr hnegative), if_pos hnegative]
    exact exists_word? (by omega) (by omega)
  · rw [if_neg (mt hsign.mp hnegative), if_neg hnegative]
    exact ⟨offset, rfl, rfl⟩

theorem toInt_max (a b : Int64) : (max a b).toInt = max a.toInt b.toInt := by
  have hmax : max a b = if a ≤ b then b else a := rfl
  rw [hmax]
  split
  · rename_i hle
    exact (Int.max_eq_right (Int64.le_iff_toInt_le.mp hle)).symm
  · rename_i hgt
    exact (Int.max_eq_left (Int64.le_iff_toInt_le.mp (Int64.le_of_lt (Int64.not_le.mp hgt)))).symm

theorem toInt_min (a b : Int64) : (min a b).toInt = min a.toInt b.toInt := by
  have hmin : min a b = if a ≤ b then a else b := rfl
  rw [hmin]
  split
  · rename_i hle
    exact (Int.min_eq_left (Int64.le_iff_toInt_le.mp hle)).symm
  · rename_i hgt
    exact (Int.min_eq_right (Int64.le_iff_toInt_le.mp (Int64.le_of_lt (Int64.not_le.mp hgt)))).symm

/-- For a list whose size is a word, no number on the way is beyond the words. -/
theorem resolve?_eq (start stop : Int64) {size : Nat} (h : size < 2 ^ 63) :
    resolve? start stop size = some (resolve start stop size) := by
  obtain ⟨word, hword, hsize⟩ := exists_word? (i := size) (by omega) (by omega)
  obtain ⟨first, hfirst, hstart⟩ := exists_place? start hsize
  obtain ⟨last, hlast, hstop⟩ := exists_place? stop hsize
  obtain ⟨top, htop, htail⟩ := exists_word? (i := (size : Int) - 1) (by omega) (by omega)
  have hmax : (max first 0).toInt = max (place start size) 0 := by rw [toInt_max, hstart, Int64.toInt_zero]
  have hmin : (min last top).toInt = min (place stop size) (size - 1) := by rw [toInt_min, hstop, htail]
  simp only [resolve?, hword, hfirst, hlast, hsize, htop, Option.bind_eq_bind, Option.bind_some, Int64.lt_iff_toInt_lt,
    Int64.le_iff_toInt_le, hmax, hmin, Int64.toInt_zero, resolve]
  split <;> rfl

end Span

end DurableLists

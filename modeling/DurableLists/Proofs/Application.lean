import DurableLists.Proofs.Index.Edits

/-!
# Applying a command is all or nothing

What is under the key of a command decides whether the command is refused, and why (`Command.refusal?`). A command
that is refused leaves the store as it is. One that is applied makes one edit: it puts a list, or an expiry if it is
a new expiry, or erases the key if it is a deletion (`Command.Amounts`). So it changes nothing under other keys, only
a deletion takes a key out, only a deletion or a new expiry touches an expiry, and the answer counts what the command
has concerned (`Store.applied_or_unchanged`).
-/

set_option autoImplicit false

namespace DurableLists

namespace Command

/-- Why a command is refused, if it is, by the list under its key. -/
def refusal? (found : Option (List Bytes)) : Command → Option Error
  | .push .. | .expire .. | .delete _ => none
  | .remove .. | .trim .. | .removeAt .. =>
    match found with
    | none => some .keyNotFound
    | some _ => none
  | .pop .. =>
    match found with
    | none => some .keyNotFound
    | some [] => some .emptyList
    | some (_ :: _) => none
  | .replace _ index _ =>
    match found with
    | none => some .keyNotFound
    | some items => if 0 ≤ index.toInt ∧ index.toInt < items.length then none else some .indexOutOfRange

/-- What a command that is not refused amounts to, by the list and the expiry under its key: what it counts and what
it edits. -/
inductive Amounts (timestamp : UInt64) (found : Option (List Bytes)) (standing : Option Expiry) :
    Command → Nat → Edit → Prop where
  | push (side : Side) (key value : Bytes) (items : List Bytes) :
      Amounts timestamp found standing (.push side key value) 1 (.put items)
  | pop (side : Side) (key value : Bytes) (items : List Bytes) :
      Amounts timestamp found standing (.pop side key value) 1 (.put items)
  | replace (key : Bytes) (index : Int64) (value : Bytes) (items : List Bytes) :
      Amounts timestamp found standing (.replace key index value) 1 (.put items)
  | trim (key : Bytes) (start stop : Int64) (items : List Bytes) :
      Amounts timestamp found standing (.trim key start stop) 1 (.put items)
  | remove (key : Bytes) (amount : Int64) (value : Bytes) {items kept : List Bytes} {count : Nat}
      (before : found = some items) (gone : kept.length + count = items.length) :
      Amounts timestamp found standing (.remove key amount value) count (.put kept)
  | removeAt (key : Bytes) (indexes : List Int64) {items kept : List Bytes} {count : Nat}
      (before : found = some items) (gone : kept.length + count = items.length) :
      Amounts timestamp found standing (.removeAt key indexes) count (.put kept)
  | expire (key : Bytes) (ttl : UInt32) :
      Amounts timestamp found standing (.expire key ttl) 1 (.expire ⟨ttl, timestamp⟩)
  | delete (key : Bytes) :
      Amounts timestamp found standing (.delete key) (if found ≠ none ∨ standing ≠ none then 1 else 0) .erase

/-- A command is refused, or it is applied. -/
theorem effect_cases (command : Command) (timestamp : UInt64) (found : Option (List Bytes)) (standing : Option Expiry) :
    (∃ e, command.refusal? found = some e ∧ command.effect timestamp found standing = .error e) ∨
      ∃ count e, command.refusal? found = none ∧ command.effect timestamp found standing = .ok (count, e) ∧
        Amounts timestamp found standing command count e := by
  cases command with
  | push side key value => exact .inr ⟨1, _, rfl, rfl, .push side key value _⟩
  | pop side key value =>
    cases found with
    | none => exact .inl ⟨.keyNotFound, rfl, rfl⟩
    | some items =>
      cases items with
      | nil => cases side <;> exact .inl ⟨.emptyList, rfl, rfl⟩
      | cons item items => cases side <;> exact .inr ⟨1, _, rfl, rfl, .pop _ key value _⟩
  | remove key amount value =>
    cases found with
    | none => exact .inl ⟨.keyNotFound, rfl, rfl⟩
    | some items =>
      have hless := (Store.removeCounted_sublist amount value items).length_le
      exact .inr ⟨_, _, rfl, rfl, .remove key amount value rfl (Nat.add_sub_of_le hless)⟩
  | replace key index value =>
    cases found with
    | none => exact .inl ⟨.keyNotFound, rfl, rfl⟩
    | some items =>
      have hinside : (index < 0 ∨ items.length ≤ index.toInt) ↔ ¬(0 ≤ index.toInt ∧ index.toInt < items.length) := by
        rw [Int64.lt_iff_toInt_lt, Int64.toInt_zero]
        omega
      by_cases hindex : 0 ≤ index.toInt ∧ index.toInt < items.length
      · refine .inr ⟨1, .put (items.set index.toInt.toNat value), if_pos hindex, ?_, .replace key index value _⟩
        exact if_neg (mt hinside.mp (not_not_intro hindex))
      · exact .inl ⟨.indexOutOfRange, if_neg hindex, if_pos (hinside.mpr hindex)⟩
  | trim key start stop =>
    cases found with
    | none => exact .inl ⟨.keyNotFound, rfl, rfl⟩
    | some items => exact .inr ⟨1, _, rfl, rfl, .trim key start stop _⟩
  | removeAt key indexes =>
    cases found with
    | none => exact .inl ⟨.keyNotFound, rfl, rfl⟩
    | some items =>
      have hless := (Store.removePositions_sublist indexes items).length_le
      exact .inr ⟨_, _, rfl, rfl, .removeAt key indexes rfl (Nat.add_sub_of_le hless)⟩
  | expire key ttl => exact .inr ⟨1, _, rfl, rfl, .expire key ttl⟩
  | delete key =>
    have hanything : (found.isSome || standing.isSome) = true ↔ found ≠ none ∨ standing ≠ none := by
      rw [Bool.or_eq_true, Option.isSome_iff_ne_none, Option.isSome_iff_ne_none]
    refine .inr ⟨_, .erase, rfl, ?_, .delete key⟩
    simp only [effect, hanything]

end Command

namespace Store

/-- Whether a number counts what a command has concerned that has made one store of another: one for a push, a pop, a
replacement, a trim or a new expiry, the elements that are gone for a removal, and for a deletion one just if there
was a list or an expiry to delete. -/
def Counts (s t : Store) (count : Nat) : Command → Prop
  | .push .. | .pop .. | .replace .. | .trim .. | .expire .. => count = 1
  | .remove key _ _ | .removeAt key _ =>
    ∃ items kept, s.list? key = some items ∧ t.list? key = some kept ∧ kept.length + count = items.length
  | .delete key => count = if s.list? key ≠ none ∨ s.expiry? key ≠ none then 1 else 0

/-- How a store has become another by a command that has been applied and has answered with a count. -/
structure Applied (s : Store) (command : Command) (count : Nat) (t : Store) : Prop where
  others : ∀ other, other ≠ command.key → t.list? other = s.list? other ∧ t.expiry? other = s.expiry? other
  registered : ∀ key, s.list? key ≠ none → t.list? key ≠ none ∨ command = .delete key
  expiry : ∀ key, t.expiry? key = s.expiry? key ∨ command = .delete key ∨ ∃ ttl, command = .expire key ttl
  counts : s.Counts t count command

variable {s : Store} {command : Command} {timestamp : UInt64} {count : Nat} {e : Edit}

theorem list?_edit_self (s : Store) (key : Bytes) (e : Edit) :
    (s.edit key e).list? key = e.list? (s.list? key) := by
  rw [list?_edit, if_pos rfl]

theorem counts_of_amounts
    (h : command.Amounts timestamp (s.list? command.key) (s.expiry? command.key) count e) :
    s.Counts (s.edit command.key e) count command := by
  cases h with
  | push | pop | replace | trim | expire | delete => exact rfl
  | remove key amount value before gone => exact ⟨_, _, before, list?_edit_self .., gone⟩
  | removeAt key indexes before gone => exact ⟨_, _, before, list?_edit_self .., gone⟩

theorem applied_of_amounts
    (h : command.Amounts timestamp (s.list? command.key) (s.expiry? command.key) count e) :
    s.Applied command count (s.edit command.key e) where
  others other hother := by
    rw [list?_edit, expiry?_edit, if_neg hother.symm, if_neg hother.symm]
    exact ⟨rfl, rfl⟩
  registered key hkey := by
    rw [list?_edit]
    split
    · rename_i hsame
      cases h with
      | push | pop | replace | trim | remove | removeAt => exact .inl (Option.some_ne_none _)
      | expire => exact .inl hkey
      | delete => exact .inr (congrArg _ hsame)
    · exact .inl hkey
  expiry key := by
    rw [expiry?_edit]
    split
    · rename_i hsame
      cases h with
      | push | pop | replace | trim | remove | removeAt => exact .inl rfl
      | expire other ttl => exact .inr (.inr ⟨ttl, congrArg (Command.expire · ttl) hsame⟩)
      | delete => exact .inr (.inl (congrArg _ hsame))
    · exact .inl rfl
  counts := counts_of_amounts h

/-- A command is refused for what is under its key, and the store stays as it is, lists and expiries; or it is applied,
and what it changes is under its key. Then only a deletion has taken a key out, only a deletion or a new expiry has
changed an expiry, and the answer counts what the command has concerned. -/
theorem applied_or_unchanged (s : Store) (command : Command) (timestamp : UInt64) :
    (∃ e, command.refusal? (s.list? command.key) = some e ∧ (apply command timestamp).run s = (.error e, s)) ∨
      ∃ count t, command.refusal? (s.list? command.key) = none ∧
        (apply command timestamp).run s = (.ok count, t) ∧ s.Applied command count t := by
  obtain ⟨e, hrefused, heffect⟩ | ⟨count, e, htaken, heffect, hamounts⟩ :=
    command.effect_cases timestamp (s.list? command.key) (s.expiry? command.key)
  · refine .inl ⟨e, hrefused, ?_⟩
    rw [run_apply, heffect]
  · exact .inr ⟨count, _, htaken, run_apply_of_effect heffect, applied_of_amounts hamounts⟩

end Store

end DurableLists

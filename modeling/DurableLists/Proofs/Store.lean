import Mathlib.Data.List.Perm.Subperm
import DurableLists.Store
import DurableLists.Proofs.Attempt

/-!
# What commands do to a store

A store is looked at key by key: `list?` and `expiry?` say what is under a key, and each change of a store
changes one key. Every operation on a list first asks for the list and then puts another one in its place, so
that it is known by one equation. `Changes` says once what a command that is applied does: it puts a list
under its key, made of elements that were there and of the one it brings, or it puts an expiry there, or it
erases the key (`changes_of_apply`).
-/

set_option autoImplicit false

namespace DurableLists

/-- The element that a command brings into its list, if it brings one. -/
def Command.offered : Command → List Bytes
  | .push _ _ value => [value]
  | .replace _ _ value => [value]
  | .pop .. | .remove .. | .trim .. | .removeAt .. | .expire .. | .delete _ => []

namespace Store

/-! ## Keys -/

variable (s : Store) (key other : Bytes)

theorem containsKey_eq_isSome : s.containsKey key = (s.list? key).isSome :=
  Std.ExtTreeMap.contains_eq_isSome_getElem?

theorem list?_putList (items : List Bytes) :
    (s.putList key items).list? other = if key = other then some items else s.list? other := by
  refine Std.ExtTreeMap.getElem?_insert.trans ?_
  simp only [Std.compare_eq_iff_eq]
  rfl

@[simp] theorem expiry?_putList (items : List Bytes) :
    (s.putList key items).expiry? other = s.expiry? other := rfl

@[simp] theorem list?_putExpiry (expiry : Expiry) :
    (s.putExpiry key expiry).list? other = s.list? other := rfl

theorem expiry?_putExpiry (expiry : Expiry) :
    (s.putExpiry key expiry).expiry? other = if key = other then some expiry else s.expiry? other := by
  refine Std.ExtTreeMap.getElem?_insert.trans ?_
  simp only [Std.compare_eq_iff_eq]
  rfl

theorem list?_erase : (s.erase key).list? other = if key = other then none else s.list? other := by
  refine Std.ExtTreeMap.getElem?_erase.trans ?_
  simp only [Std.compare_eq_iff_eq]
  rfl

theorem expiry?_erase :
    (s.erase key).expiry? other = if key = other then none else s.expiry? other := by
  refine Std.ExtTreeMap.getElem?_erase.trans ?_
  simp only [Std.compare_eq_iff_eq]
  rfl

/-! ## Operations -/

theorem run_pop (side : Side) : (pop side key).run s =
    match s.list? key with
    | none => (.error .keyNotFound, s)
    | some items =>
      match side.peek? items with
      | none => (.error .emptyList, s)
      | some value => (.ok value, s.putList key (side.rest items)) := by
  rw [pop, Attempt.run_bind_ok (Attempt.run_get s), Attempt.run_bind, Attempt.run_ofExcept, list]
  cases hlist : s.list? key with
  | none => rfl
  | some items =>
    simp only [peek, list, hlist, bind, Except.bind]
    cases side.peek? items <;> rfl

theorem run_remove (count : Int64) (value : Bytes) : (remove key count value).run s =
    match s.list? key with
    | none => (.error .keyNotFound, s)
    | some items => (.ok (items.length - (removeCounted count value items).length),
        s.putList key (removeCounted count value items)) := by
  rw [remove, Attempt.run_bind_ok (Attempt.run_get s), Attempt.run_bind, Attempt.run_ofExcept, list]
  cases s.list? key <;> rfl

theorem run_replace (index : Int64) (value : Bytes) : (replace key index value).run s =
    match s.list? key with
    | none => (.error .keyNotFound, s)
    | some items =>
      if index < 0 ∨ items.length ≤ index.toInt then (.error .indexOutOfRange, s)
      else (.ok (), s.putList key (items.set index.toInt.toNat value)) := by
  rw [replace, Attempt.run_bind_ok (Attempt.run_get s), Attempt.run_bind, Attempt.run_ofExcept, list]
  cases s.list? key with
  | none => rfl
  | some items =>
    simp only
    split <;> rfl

theorem run_trim (start stop : Int64) : (trim key start stop).run s =
    match s.list? key with
    | none => (.error .keyNotFound, s)
    | some items => (.ok (), s.putList key (trimmed start stop items)) := by
  rw [trim, Attempt.run_bind_ok (Attempt.run_get s), Attempt.run_bind, Attempt.run_ofExcept, list]
  cases s.list? key <;> rfl

theorem run_removeAt (indexes : List Int64) : (removeAt key indexes).run s =
    match s.list? key with
    | none => (.error .keyNotFound, s)
    | some items => (.ok (items.length - (removePositions indexes items).length),
        s.putList key (removePositions indexes items)) := by
  rw [removeAt, Attempt.run_bind_ok (Attempt.run_get s), Attempt.run_bind, Attempt.run_ofExcept, list]
  cases s.list? key <;> rfl

variable {s key other}

/-! ## Expiries -/

theorem isExpired_of_expiry? {expiry : Expiry} (h : s.expiry? key = some expiry) (now : UInt64) :
    s.isExpired key now = expiry.isExpired now := by
  rw [isExpired, h]
  rfl

theorem isExpired_of_expiry?_none (h : s.expiry? key = none) (now : UInt64) : s.isExpired key now = false := by
  rw [isExpired, h]
  rfl

theorem ttl_of_isExpired {now : UInt64} (h : s.isExpired key now = true) : s.ttl key now = .error .keyNotFound := by
  rw [isExpired, Option.any_eq_true] at h
  obtain ⟨expiry, hexpiry, hpassed⟩ := h
  simp only [ttl, hexpiry, hpassed, if_true]

theorem ttl_of_unknown (hlist : s.list? key = none) (hexpiry : s.expiry? key = none) (now : UInt64) :
    s.ttl key now = .error .keyNotFound := by
  simp only [ttl, hexpiry, containsKey_eq_isSome, hlist]
  rfl

/-! ## What stays of a list -/

theorem rest_sublist (side : Side) (items : List Bytes) : (side.rest items).Sublist items := by
  cases side with
  | head => exact List.tail_sublist items
  | tail => exact List.dropLast_sublist items

theorem removeFirst_sublist (value : Bytes) (limit : Nat) (items : List Bytes) :
    (removeFirst value limit items).Sublist items := by
  fun_induction removeFirst value limit items with
  | case1 => exact List.Sublist.refl _
  | case2 => exact List.Sublist.refl _
  | case3 limit items ih => exact ih.trans (List.sublist_cons_self _ _)
  | case4 limit item items _ ih => exact ih.cons_cons item

theorem removeCounted_sublist (count : Int64) (value : Bytes) (items : List Bytes) :
    (removeCounted count value items).Sublist items := by
  rw [removeCounted]
  split
  · exact List.filter_sublist
  · split
    · exact removeFirst_sublist _ _ _
    · have h := (removeFirst_sublist value count.toInt.natAbs items.reverse).reverse
      rwa [List.reverse_reverse] at h

theorem trimmed_sublist (start stop : Int64) (items : List Bytes) :
    (trimmed start stop items).Sublist items := by
  rw [trimmed]
  split
  · exact (List.drop_sublist _ _).trans (List.take_sublist _ _)
  · exact List.nil_sublist _

theorem removePositions_sublist (indexes : List Int64) (items : List Bytes) :
    (removePositions indexes items).Sublist items := by
  have h := (List.filter_sublist (p := fun p => !IndexSet.holds indexes p.2)
    (l := items.zipIdx)).map Prod.fst
  rwa [List.zipIdx_map_fst] at h

theorem insert_subperm (side : Side) (value : Bytes) (items : List Bytes) :
    (side.insert value items).Subperm (value :: items) := by
  cases side with
  | head => exact List.Subperm.refl _
  | tail => exact (List.perm_append_singleton value items).subperm

theorem set_subperm (items : List Bytes) (i : Nat) (value : Bytes) :
    (items.set i value).Subperm (value :: items) := by
  induction items generalizing i with
  | nil => exact List.nil_subperm
  | cons item items ih =>
    cases i with
    | zero => exact ((List.sublist_cons_self item items).cons_cons value).subperm
    | succ i =>
      rw [List.set_cons_succ]
      exact ((List.subperm_cons item).mpr (ih i)).trans (List.Perm.swap value item items).subperm

/-! ## Applying a command -/

/-- What a command that is applied does to a store. Only a push puts a list where there was none. -/
inductive Changes (s : Store) (timestamp : UInt64) : Command → Store → Prop where
  | put {command : Command} {items : List Bytes}
      (origin : (∃ before, s.list? command.key = some before) ∨
        ∃ side value, command = .push side command.key value)
      (kept : items.Subperm (command.offered ++ (s.list? command.key).getD [])) :
      Changes s timestamp command (s.putList command.key items)
  | expire (key : Bytes) (ttl : UInt32) :
      Changes s timestamp (.expire key ttl) (s.putExpiry key ⟨ttl, timestamp⟩)
  | delete (key : Bytes) : Changes s timestamp (.delete key) (s.erase key)

theorem Changes.put_of_list? {command : Command} {timestamp : UInt64} {items kept : List Bytes}
    (hlist : s.list? command.key = some items) (hkept : kept.Subperm (command.offered ++ items)) :
    Changes s timestamp command (s.putList command.key kept) := by
  refine .put (Or.inl ⟨items, hlist⟩) ?_
  rw [hlist]
  exact hkept

theorem changes_of_apply {command : Command} {timestamp : UInt64} {count : Nat} {t : Store}
    (h : (apply command timestamp).run s = (.ok count, t)) : Changes s timestamp command t := by
  cases command with
  | push side key value =>
    cases h
    exact .put (Or.inr ⟨side, value, rfl⟩) (insert_subperm side value _)
  | pop side key value =>
    rw [apply, Attempt.run_bind, run_pop] at h
    cases hlist : s.list? key with
    | none => simp [hlist] at h
    | some items =>
      cases hpeek : side.peek? items with
      | none => simp [hlist, hpeek] at h
      | some v =>
        simp only [hlist, hpeek, Attempt.run_pure, Prod.mk.injEq] at h
        rw [← h.2]
        exact Changes.put_of_list? hlist (rest_sublist side items).subperm
  | remove key count value =>
    rw [apply, run_remove] at h
    cases hlist : s.list? key with
    | none => simp [hlist] at h
    | some items =>
      simp only [hlist, Prod.mk.injEq] at h
      rw [← h.2]
      exact Changes.put_of_list? hlist (removeCounted_sublist count value items).subperm
  | replace key index value =>
    rw [apply, Attempt.run_bind, run_replace] at h
    cases hlist : s.list? key with
    | none => simp [hlist] at h
    | some items =>
      by_cases hindex : index < 0 ∨ items.length ≤ index.toInt
      · simp [hlist, hindex] at h
      · simp only [hlist, hindex, if_false, Attempt.run_pure, Prod.mk.injEq] at h
        rw [← h.2]
        exact Changes.put_of_list? hlist (set_subperm items _ value)
  | trim key start stop =>
    rw [apply, Attempt.run_bind, run_trim] at h
    cases hlist : s.list? key with
    | none => simp [hlist] at h
    | some items =>
      simp only [hlist, Attempt.run_pure, Prod.mk.injEq] at h
      rw [← h.2]
      exact Changes.put_of_list? hlist (trimmed_sublist start stop items).subperm
  | removeAt key indexes =>
    rw [apply, run_removeAt] at h
    cases hlist : s.list? key with
    | none => simp [hlist] at h
    | some items =>
      simp only [hlist, Prod.mk.injEq] at h
      rw [← h.2]
      exact Changes.put_of_list? hlist (removePositions_sublist indexes items).subperm
  | expire key ttl =>
    cases h
    exact .expire key ttl
  | delete key =>
    cases h
    exact .delete key

/-- A command about one key leaves the list and the expiry under another. -/
theorem apart_of_apply {command : Command} {second : UInt64} {count : Nat} {t : Store}
    (h : (apply command second).run s = (.ok count, t)) (hkey : command.key ≠ key) :
    t.list? key = s.list? key ∧ t.expiry? key = s.expiry? key := by
  cases changes_of_apply h with
  | put origin kept =>
    refine ⟨?_, expiry?_putList ..⟩
    rw [list?_putList, if_neg hkey]
  | expire other ttl =>
    have hother : other ≠ key := hkey
    refine ⟨list?_putExpiry .., ?_⟩
    rw [expiry?_putExpiry, if_neg hother]
  | delete other =>
    have hother : other ≠ key := hkey
    refine ⟨?_, ?_⟩
    · rw [list?_erase, if_neg hother]
    · rw [expiry?_erase, if_neg hother]

end Store

end DurableLists

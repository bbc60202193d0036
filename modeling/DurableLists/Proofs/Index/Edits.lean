import DurableLists.Proofs.Index.Lists

/-!
# What a command and a record do to one key

That a command can be applied, and what it answers, is decided by the list and the expiry under its key, and it changes
nothing else: it puts a list or an expiry there, or erases both. `Command.effect` says which, and `Store.run_apply`
that this is all it does. A record is about one key of one bucket, its `subject?`, and makes such an edit there
(`Index.edit_of_applyRecord`). Edits under different keys can be made in either order (`Index.edit_comm`).
-/

set_option autoImplicit false

namespace DurableLists

/-! ## Edits -/

/-- A change of what is under one key: a list is put there, or an expiry, or both are erased. -/
inductive Edit where
  | put (items : List Bytes)
  | expire (expiry : Expiry)
  | erase
  deriving DecidableEq, Repr

namespace Edit

def list? (found : Option (List Bytes)) : Edit → Option (List Bytes)
  | .put items => some items
  | .expire _ => found
  | .erase => none

def expiry? (found : Option Expiry) : Edit → Option Expiry
  | .put _ => found
  | .expire expiry => some expiry
  | .erase => none

end Edit

namespace Store

def edit (s : Store) (key : Bytes) : Edit → Store
  | .put items => s.putList key items
  | .expire expiry => s.putExpiry key expiry
  | .erase => s.erase key

variable {s t : Store} {key other : Bytes}

/-- A store is known by the list and the expiry under each key. -/
theorem ext_lookup (hlists : ∀ key, s.list? key = t.list? key) (hexpiries : ∀ key, s.expiry? key = t.expiry? key) :
    s = t := by
  cases s
  cases t
  exact congrArg₂ Store.mk (Std.ExtTreeMap.ext_getElem? hlists) (Std.ExtTreeMap.ext_getElem? hexpiries)

theorem list?_edit (s : Store) (key other : Bytes) (e : Edit) :
    (s.edit key e).list? other = if key = other then e.list? (s.list? other) else s.list? other := by
  cases e with
  | put items => exact list?_putList ..
  | expire expiry => exact (ite_self _).symm
  | erase => exact list?_erase ..

theorem expiry?_edit (s : Store) (key other : Bytes) (e : Edit) :
    (s.edit key e).expiry? other = if key = other then e.expiry? (s.expiry? other) else s.expiry? other := by
  cases e with
  | put items => exact (ite_self _).symm
  | expire expiry => exact expiry?_putExpiry ..
  | erase => exact expiry?_erase ..

theorem edit_comm (h : key ≠ other) (s : Store) (e e' : Edit) :
    (s.edit key e).edit other e' = (s.edit other e').edit key e := by
  refine ext_lookup (fun third => ?_) (fun third => ?_)
  · simp only [list?_edit]
    by_cases hkey : key = third
    · simp only [if_neg fun hother : other = third => h (hkey.trans hother.symm)]
    · rw [if_neg hkey, if_neg hkey]
  · simp only [expiry?_edit]
    by_cases hkey : key = third
    · simp only [if_neg fun hother : other = third => h (hkey.trans hother.symm)]
    · rw [if_neg hkey, if_neg hkey]

end Store

/-! ## Applying a command -/

/-- What applying a command as of a second comes to, by the list and the expiry under its key: why it cannot be applied,
or what it answers and the edit that it makes there. -/
def Command.effect (timestamp : UInt64) (found : Option (List Bytes)) (standing : Option Expiry) :
    Command → Except Error (Nat × Edit)
  | .push side _ value => .ok (1, .put (side.insert value (found.getD [])))
  | .pop side _ _ =>
    match found with
    | none => .error .keyNotFound
    | some items =>
      match side.peek? items with
      | none => .error .emptyList
      | some _ => .ok (1, .put (side.rest items))
  | .remove _ count value =>
    match found with
    | none => .error .keyNotFound
    | some items =>
      let kept := Store.removeCounted count value items
      .ok (items.length - kept.length, .put kept)
  | .replace _ index value =>
    match found with
    | none => .error .keyNotFound
    | some items =>
      if index < 0 ∨ items.length ≤ index.toInt then .error .indexOutOfRange
      else .ok (1, .put (items.set index.toInt.toNat value))
  | .trim _ start stop =>
    match found with
    | none => .error .keyNotFound
    | some items => .ok (1, .put (Store.trimmed start stop items))
  | .removeAt _ indexes =>
    match found with
    | none => .error .keyNotFound
    | some items =>
      let kept := Store.removePositions indexes items
      .ok (items.length - kept.length, .put kept)
  | .expire _ ttl => .ok (1, .expire ⟨ttl, timestamp⟩)
  | .delete _ => .ok (if found.isSome || standing.isSome then 1 else 0, .erase)

namespace Store

variable {s t : Store} {command : Command} {timestamp : UInt64}

/-- What a command finds under its key decides all that applying it does. -/
theorem run_apply (s : Store) (command : Command) (timestamp : UInt64) : (apply command timestamp).run s =
    match command.effect timestamp (s.list? command.key) (s.expiry? command.key) with
    | .ok (count, e) => (.ok count, s.edit command.key e)
    | .error e => (.error e, s) := by
  cases command with
  | push side key value => rfl
  | pop side key value =>
    rw [apply, Attempt.run_bind, run_pop]
    simp only [Command.effect, Command.key]
    cases s.list? key with
    | none => rfl
    | some items =>
      simp only
      cases side.peek? items <;> rfl
  | remove key count value =>
    rw [apply, run_remove]
    simp only [Command.effect, Command.key]
    cases s.list? key <;> rfl
  | replace key index value =>
    rw [apply, Attempt.run_bind, run_replace]
    simp only [Command.effect, Command.key]
    cases s.list? key with
    | none => rfl
    | some items =>
      by_cases hindex : index < 0 ∨ items.length ≤ index.toInt
      · simp only [hindex, if_true]
      · simp only [hindex, if_false]
        rfl
  | trim key start stop =>
    rw [apply, Attempt.run_bind, run_trim]
    simp only [Command.effect, Command.key]
    cases s.list? key <;> rfl
  | removeAt key indexes =>
    rw [apply, run_removeAt]
    simp only [Command.effect, Command.key]
    cases s.list? key <;> rfl
  | expire key ttl => rfl
  | delete key =>
    have hdelete : (apply (.delete key) timestamp).run s =
        (.ok (if s.containsKey key || (s.expiry? key).isSome then 1 else 0), s.erase key) := rfl
    rw [hdelete, containsKey_eq_isSome]
    rfl

theorem run_apply_of_effect {count : Nat} {e : Edit}
    (h : command.effect timestamp (s.list? command.key) (s.expiry? command.key) = .ok (count, e)) :
    (apply command timestamp).run s = (.ok count, s.edit command.key e) := by
  rw [run_apply, h]

theorem of_run_apply_ok {count : Nat} (h : (apply command timestamp).run s = (.ok count, t)) : ∃ e : Edit,
      command.effect timestamp (s.list? command.key) (s.expiry? command.key) = .ok (count, e) ∧
        t = s.edit command.key e := by
  rw [run_apply] at h
  split at h
  · rename_i found e heffect
    cases h
    exact ⟨e, heffect, rfl⟩
  · cases h

/-- A command that cannot be applied leaves the store as it is. -/
theorem eq_of_apply_error {e : Error} (h : (apply command timestamp).run s = (.error e, t)) : t = s := by
  rw [run_apply] at h
  split at h
  · cases h
  · cases h
    rfl

end Store

/-! ## Records -/

/-- The bucket and the key that a record is about, if its command can be read. -/
def Record.subject? (r : Record) : Option (String × Bytes) :=
  match r.command with
  | .ok command => some (r.bucket, command.key)
  | .error _ => none

theorem Record.subject?_of_command {r : Record} {command : Command} (h : r.command = .ok command) :
    r.subject? = some (r.bucket, command.key) := by
  rw [subject?, h]

namespace Index

def list? (index : Index) (bucket : String) (key : Bytes) : Option (List Bytes) :=
  ((index.store? bucket).getD ∅).list? key

def edit (index : Index) (bucket : String) (key : Bytes) (e : Edit) : Index :=
  index.install bucket (((index.store? bucket).getD ∅).edit key e)

variable {index next : Index} {bucket other : String} {key key' : Bytes} {r : Record} {count : Nat}

theorem list?_edit (index : Index) (bucket other : String) (key key' : Bytes) (e : Edit) :
    (index.edit bucket key e).list? other key' =
      if bucket = other ∧ key = key' then e.list? (index.list? other key') else index.list? other key' := by
  rw [list?, edit, store?_install]
  by_cases hbucket : bucket = other
  · subst hbucket
    simp only [if_true, Option.getD_some, true_and]
    exact Store.list?_edit ..
  · simp only [hbucket, if_false, false_and]
    rfl

theorem expiry?_edit (index : Index) (bucket other : String) (key key' : Bytes) (e : Edit) :
    (index.edit bucket key e).expiry? other key' =
      if bucket = other ∧ key = key' then e.expiry? (index.expiry? other key') else index.expiry? other key' := by
  rw [edit, expiry?_install]
  by_cases hbucket : bucket = other
  · subst hbucket
    simp only [if_true, true_and]
    exact Store.expiry?_edit ..
  · simp only [hbucket, if_false, false_and]

theorem edit_comm (h : (bucket, key) ≠ (other, key')) (index : Index) (e e' : Edit) :
    (index.edit bucket key e).edit other key' e' = (index.edit other key' e').edit bucket key e := by
  by_cases hbucket : bucket = other
  · subst hbucket
    have hkey : key ≠ key' := fun hkey => h (congrArg _ hkey)
    simp only [edit, store?_install_self, Option.getD_some, install_install, Store.edit_comm hkey]
  · refine ext_store? fun third => ?_
    simp only [edit, store?_install, hbucket, Ne.symm hbucket, if_false]
    by_cases hthird : bucket = third
    · simp only [if_neg fun hother : other = third => hbucket (hthird.trans hother.symm)]
    · simp only [hthird, if_false]

/-- A record that is applied makes one edit of its subject, and it makes the same one with the same answer on every
index that has the same there. -/
theorem edit_of_applyRecord (h : (applyRecord r).run index = (.ok count, next)) :
    ∃ bucket key e, r.subject? = some (bucket, key) ∧ next = index.edit bucket key e ∧
      ∀ other : Index, other.list? bucket key = index.list? bucket key →
        other.expiry? bucket key = index.expiry? bucket key →
        (applyRecord r).run other = (.ok count, other.edit bucket key e) := by
  obtain ⟨command, store, hcommand, hstore, rfl⟩ := of_run_applyRecord h
  obtain ⟨e, heffect, rfl⟩ := Store.of_run_apply_ok hstore
  refine ⟨r.bucket, command.key, e, Record.subject?_of_command hcommand, rfl, fun other hlist hexpiry => ?_⟩
  have hsame : command.effect r.timestamp (other.list? r.bucket command.key) (other.expiry? r.bucket command.key) =
      .ok (count, e) := by
    rw [hlist, hexpiry]
    exact heffect
  rw [run_applyRecord hcommand, Store.run_apply_of_effect hsame]
  rfl

end Index

end DurableLists

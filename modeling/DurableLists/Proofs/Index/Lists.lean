import DurableLists.Proofs.Index
import DurableLists.Proofs.Store

/-!
# What a replay makes of one list

A list of an index is looked at by its elements and its expiry. A record that is applied adds to the elements what
it offers for that list, and may take away others (`items_applyRecord`); an eviction takes away all of them; and
only an eviction or a new expiry touches the expiry. So a replay leaves a list, up to its order, with elements
that its records have offered or that were there before (`items_replay`). If an eviction comes before every new
expiry, then the list has lost what was there before, or its expiry still stands (`items_of_evictsFirst`).
-/

set_option autoImplicit false

namespace DurableLists

namespace Record

variable (bucket : String) (key : Bytes)

/-- The elements that a record brings into a list. -/
def offered (r : Record) : List Bytes :=
  match r.command with
  | .ok command => if r.bucket = bucket ∧ command.key = key then command.offered else []
  | .error _ => []

/-- The elements that records bring into a list, one after another. -/
def puts (rs : List Record) : List Bytes := rs.flatMap (offered bucket key)

/-- Whether a record takes a list out of its bucket. -/
def Evicts (r : Record) : Prop := r.bucket = bucket ∧ r.command = .ok (.delete key)

/-- Whether a record sets a new expiry of a list. -/
def Extends (r : Record) : Prop := r.bucket = bucket ∧ ∃ ttl, r.command = .ok (.expire key ttl)

/-- Whether no new expiry of a list is set before the list is evicted. -/
def EvictsFirst : List Record → Prop
  | [] => True
  | r :: rs => r.Evicts bucket key ∨ ¬r.Extends bucket key ∧ EvictsFirst rs

variable {bucket key}

theorem puts_cons (r : Record) (rs : List Record) :
    puts bucket key (r :: rs) = r.offered bucket key ++ puts bucket key rs := List.flatMap_cons

end Record

namespace Index

def items (index : Index) (bucket : String) (key : Bytes) : List Bytes :=
  (((index.store? bucket).getD ∅).list? key).getD []

def expiry? (index : Index) (bucket : String) (key : Bytes) : Option Expiry :=
  ((index.store? bucket).getD ∅).expiry? key

def isExpired (index : Index) (bucket : String) (key : Bytes) (now : UInt64) : Bool :=
  (index.store? bucket).any fun store => store.isExpired key now

variable {index next start stop : Index} {bucket : String} {key : Bytes} {r : Record} {rs : List Record}
  {count : Nat}

theorem items_install (index : Index) (bucket other : String) (store : Store) (key : Bytes) :
    (index.install bucket store).items other key =
      if bucket = other then (store.list? key).getD [] else index.items other key := by
  rw [items, store?_install]
  split <;> rfl

theorem expiry?_install (index : Index) (bucket other : String) (store : Store) (key : Bytes) :
    (index.install bucket store).expiry? other key =
      if bucket = other then store.expiry? key else index.expiry? other key := by
  rw [expiry?, store?_install]
  split <;> rfl

/-! ## One record -/

theorem items_applyRecord (h : (applyRecord r).run index = (.ok count, next)) :
    (next.items bucket key).Subperm (r.offered bucket key ++ index.items bucket key) := by
  obtain ⟨command, store, hcommand, hstore, rfl⟩ := of_run_applyRecord h
  rw [items_install]
  split
  · rename_i hbucket
    subst hbucket
    rw [items, Record.offered, hcommand]
    cases Store.changes_of_apply hstore with
    | put origin kept =>
      rw [Store.list?_putList]
      by_cases hkey : command.key = key
      · subst hkey
        rw [if_pos rfl]
        simp only [true_and, if_true]
        exact kept
      · rw [if_neg hkey]
        simp only [hkey, and_false, if_false, List.nil_append]
        exact List.Subperm.refl _
    | expire other ttl =>
      rw [Store.list?_putExpiry]
      exact (List.sublist_append_right _ _).subperm
    | delete other =>
      rw [Store.list?_erase]
      split
      · exact List.nil_subperm
      · exact (List.sublist_append_right _ _).subperm
  · exact (List.sublist_append_right _ _).subperm

theorem items_of_evicts (h : (applyRecord r).run index = (.ok count, next)) (hr : r.Evicts bucket key) :
    next.items bucket key = [] := by
  obtain ⟨rfl, hdelete⟩ := hr
  obtain ⟨command, store, hcommand, hstore, rfl⟩ := of_run_applyRecord h
  rw [hdelete] at hcommand
  cases hcommand
  cases hstore
  rw [items_install, if_pos rfl, Store.list?_erase, if_pos rfl]
  rfl

theorem expiry?_applyRecord (h : (applyRecord r).run index = (.ok count, next))
    (hevicts : ¬r.Evicts bucket key) (hextends : ¬r.Extends bucket key) :
    next.expiry? bucket key = index.expiry? bucket key := by
  obtain ⟨command, store, hcommand, hstore, rfl⟩ := of_run_applyRecord h
  rw [expiry?_install]
  split
  · rename_i hbucket
    subst hbucket
    cases Store.changes_of_apply hstore with
    | put origin kept =>
      rw [Store.expiry?_putList]
      rfl
    | expire other ttl =>
      have hother : other ≠ key := by
        rintro rfl
        exact hextends ⟨rfl, ttl, hcommand⟩
      rw [Store.expiry?_putExpiry, if_neg hother]
      rfl
    | delete other =>
      have hother : other ≠ key := by
        rintro rfl
        exact hevicts ⟨rfl, hcommand⟩
      rw [Store.expiry?_erase, if_neg hother]
      rfl
  · rfl

/-! ## Replays -/

theorem items_replay (h : (replay rs).run start = (.ok (), stop)) :
    (stop.items bucket key).Subperm (Record.puts bucket key rs ++ start.items bucket key) := by
  induction rs generalizing start with
  | nil =>
    cases h
    exact List.Subperm.refl _
  | cons r rs ih =>
    obtain ⟨count, next, hr, hrest⟩ := of_run_replay_cons h
    have hstep : (Record.puts bucket key rs ++ next.items bucket key).Subperm
        (Record.puts bucket key rs ++ (r.offered bucket key ++ start.items bucket key)) :=
      (List.subperm_append_left _).mpr (items_applyRecord hr)
    have hswap : (Record.puts bucket key rs ++ (r.offered bucket key ++ start.items bucket key)).Perm
        (Record.puts bucket key (r :: rs) ++ start.items bucket key) := by
      rw [Record.puts_cons, ← List.append_assoc]
      exact List.perm_append_comm.append_right _
    exact ((ih hrest).trans hstep).trans hswap.subperm

/-- A list whose eviction comes before every new expiry holds what its records have put there, or its expiry
still stands. -/
theorem items_of_evictsFirst (h : (replay rs).run start = (.ok (), stop))
    (hfirst : Record.EvictsFirst bucket key rs) :
    (stop.items bucket key).Subperm (Record.puts bucket key rs) ∨
      stop.expiry? bucket key = start.expiry? bucket key := by
  induction rs generalizing start with
  | nil =>
    cases h
    exact Or.inr rfl
  | cons r rs ih =>
    obtain ⟨count, next, hr, hrest⟩ := of_run_replay_cons h
    have hlater : (Record.puts bucket key rs).Subperm (Record.puts bucket key (r :: rs)) := by
      rw [Record.puts_cons]
      exact (List.sublist_append_right _ _).subperm
    by_cases hevicts : r.Evicts bucket key
    · have hitems : (stop.items bucket key).Subperm
          (Record.puts bucket key rs ++ next.items bucket key) := items_replay hrest
      rw [items_of_evicts hr hevicts, List.append_nil] at hitems
      exact Or.inl (hitems.trans hlater)
    · obtain ⟨hextends, hfirst⟩ := hfirst.resolve_left hevicts
      rw [← expiry?_applyRecord hr hevicts hextends]
      exact (ih hrest hfirst).imp_left fun hitems => hitems.trans hlater

end Index

end DurableLists

import DurableLists.Index
import DurableLists.Proofs.Index
import DurableLists.Proofs.Span
import DurableLists.Proofs.Store

/-!
# Justified commands

A command says something about the store that it is applied to: the value that a pop takes is there, the
count of a removal is within the list, a deleted key has expired. `Command.Justified` collects what each
kind says. What the checks before a command have seen justifies it (`justified_pop` and the lemmas after it),
and a justified command can be applied (`apply_of_justified`).

`Index.Justifies` asks this of records one after another, each of the index that those before it leave. Then
their replay succeeds, up to each of them, and no key with a separator is ever registered
(`Index.Justifies.plainKeys`).
-/

set_option autoImplicit false

namespace DurableLists

/-! ## Parts -/

theorem Side.insert_rest_of_peek? {side : Side} {value : Bytes} {items : List Bytes}
    (h : side.peek? items = some value) : side.insert value (side.rest items) = items := by
  cases side with
  | head => exact List.cons_head?_tail h
  | tail =>
    obtain ⟨front, rfl⟩ := List.getLast?_eq_some_iff.mp h
    simp [Side.insert, Side.rest]

namespace IndexSet

theorem mem_insert_iff {index i : Int64} {indexes : List Int64} :
    i ∈ insert index indexes ↔ i = index ∨ i ∈ indexes := by
  induction indexes with
  | nil => exact List.mem_cons
  | cons first rest ih =>
    rw [insert]
    split
    · exact List.mem_cons
    · split
      · rename_i hsame
        rw [hsame, List.mem_cons, or_self_left]
      · rw [List.mem_cons, ih, List.mem_cons, or_left_comm]

theorem mem_normalize_iff {i : Int64} {indexes : List Int64} : i ∈ normalize indexes ↔ i ∈ indexes := by
  induction indexes with
  | nil => exact Iff.rfl
  | cons index indexes ih => exact mem_insert_iff.trans ((or_congr_right ih).trans List.mem_cons.symm)

theorem pairwise_insert (index : Int64) {indexes : List Int64} (h : indexes.Pairwise (· < ·)) :
    (insert index indexes).Pairwise (· < ·) := by
  induction indexes with
  | nil => exact List.pairwise_singleton _ index
  | cons first rest ih =>
    obtain ⟨hfirst, hrest⟩ := List.pairwise_cons.mp h
    rw [insert]
    split
    · rename_i hbefore
      refine List.pairwise_cons.mpr ⟨fun i hi => ?_, h⟩
      rcases List.mem_cons.mp hi with rfl | hi
      · exact hbefore
      · exact Int64.lt_trans hbefore (hfirst i hi)
    · rename_i hnotBefore
      split
      · exact h
      · rename_i hne
        refine List.pairwise_cons.mpr ⟨fun i hi => ?_, ih hrest⟩
        rcases mem_insert_iff.mp hi with rfl | hi
        · exact Int64.lt_of_le_of_ne (Int64.not_lt.mp hnotBefore) (Ne.symm hne)
        · exact hfirst i hi

theorem pairwise_normalize (indexes : List Int64) : (normalize indexes).Pairwise (· < ·) := by
  induction indexes with
  | nil => exact List.Pairwise.nil
  | cons index indexes ih => exact pairwise_insert index ih

theorem nodup_normalize (indexes : List Int64) : (normalize indexes).Nodup :=
  (pairwise_normalize indexes).imp Int64.ne_of_lt

end IndexSet

/-- A position that is addressed is removed. -/
theorem Store.length_removePositions_lt {indexes : List Int64} {items : List Bytes} {index : Int64}
    (hindex : index ∈ indexes) (hfirst : 0 ≤ index.toInt) (hlast : index.toInt < items.length) :
    (removePositions indexes items).length < items.length := by
  obtain ⟨n, hn⟩ := Int.eq_ofNat_of_zero_le hfirst
  have hinside : n < items.length := by omega
  have hheld : IndexSet.holds indexes n = true :=
    List.any_eq_true.mpr ⟨index, hindex, by simpa using hn⟩
  have hmember : (items[n], n) ∈ items.zipIdx := by
    rw [List.mk_mem_zipIdx_iff_getElem?]
    exact List.getElem?_eq_getElem hinside
  have hfilter : (items.zipIdx.filter fun p => !IndexSet.holds indexes p.2).length <
      items.zipIdx.length :=
    List.length_filter_lt_length_iff_exists.mpr ⟨(items[n], n), hmember, by simp [hheld]⟩
  rwa [List.length_zipIdx, ← List.length_map] at hfilter

/-! ## Commands -/

namespace Command

/-- Whether what a command says about the store that it is applied to, as of a second, is the case. -/
def Justified (timestamp : UInt64) (s : Store) : Command → Prop
  | .push _ key _ => containsSeparator key = false
  /- The value is the one at that end. -/
  | .pop side key value => ∃ rest, s.list? key = some (side.insert value rest)
  | .remove key count _ => ∃ items, s.list? key = some items ∧ count.toInt.natAbs ≤ items.length
  | .replace key index _ => ∃ items, s.list? key = some items ∧
      0 ≤ index.toInt ∧ index.toInt < items.length
  | .trim key start stop => ∃ items, s.list? key = some items ∧
      (items = [] ∨ ∃ span, Span.resolve start stop items.length = .ok span ∧ span.slice items ≠ [])
  | .removeAt key indexes => ∃ items, s.list? key = some items ∧ indexes.Pairwise (· < ·) ∧
      (Store.removePositions indexes items).length < items.length
  | .expire .. => True
  | .delete key => ∃ expiry, s.expiry? key = some expiry ∧ expiry.isExpired timestamp = true

variable {s : Store} {timestamp : UInt64} {key : Bytes}

/-! ## What checks have seen -/

theorem list?_of_length {size : Nat} (h : s.length key = .ok size) :
    ∃ items, s.list? key = some items ∧ items.length = size := by
  rw [Store.length, Store.list] at h
  cases hlist : s.list? key with
  | none =>
    rw [hlist] at h
    cases h
  | some items =>
    rw [hlist] at h
    cases h
    exact ⟨items, rfl, rfl⟩

theorem list?_of_removableAt {indexes : List Int64} {removable : Nat}
    (h : s.removableAt key indexes = .ok removable) : ∃ items, s.list? key = some items := by
  rw [Store.removableAt, Store.list] at h
  cases hlist : s.list? key with
  | none =>
    rw [hlist] at h
    cases h
  | some items => exact ⟨items, rfl⟩

theorem justified_pop {side : Side} {value : Bytes} (h : s.peek side key = .ok value) :
    (Command.pop side key value).Justified timestamp s := by
  rw [Store.peek, Store.list] at h
  cases hlist : s.list? key with
  | none =>
    rw [hlist] at h
    cases h
  | some items =>
    simp only [hlist, bind, Except.bind] at h
    cases hpeek : side.peek? items with
    | none => simp [hpeek] at h
    | some found =>
      simp only [hpeek, pure, Except.pure, Except.ok.injEq] at h
      rw [← h]
      exact ⟨side.rest items, by rw [hlist, Side.insert_rest_of_peek? hpeek]⟩

theorem justified_remove {size : Nat} (h : s.length key = .ok size) {count : Int64}
    (hcount : ¬size < count.toInt.natAbs) (value : Bytes) :
    (Command.remove key count value).Justified timestamp s := by
  obtain ⟨items, hlist, rfl⟩ := list?_of_length h
  exact ⟨items, hlist, by omega⟩

theorem justified_replace {size : Nat} (h : s.length key = .ok size) {index : Int64}
    (hindex : ¬(index.toInt < 0 ∨ size ≤ index.toInt)) (value : Bytes) :
    (Command.replace key index value).Justified timestamp s := by
  obtain ⟨items, hlist, rfl⟩ := list?_of_length h
  exact ⟨items, hlist, by omega, by omega⟩

theorem justified_trim {start stop : Int64} {found : List Bytes}
    (h : s.range key start stop = .ok found) : (Command.trim key start stop).Justified timestamp s := by
  rw [Store.range, Store.list] at h
  cases hlist : s.list? key with
  | none =>
    rw [hlist] at h
    cases h
  | some items =>
    refine ⟨items, hlist, ?_⟩
    simp only [hlist, bind, Except.bind] at h
    by_cases hempty : items = []
    · exact Or.inl hempty
    · simp only [List.isEmpty_iff, hempty, if_false] at h
      cases hspan : Span.resolve start stop items.length with
      | error e => simp [hspan] at h
      | ok span => exact Or.inr ⟨span, rfl, Span.slice_ne_nil_of_resolve hspan⟩

theorem justified_removeAt {indexes : List Int64} {removable : Nat}
    (h : s.removableAt key (IndexSet.normalize indexes) = .ok removable) (hsome : removable ≠ 0) :
    (Command.removeAt key (IndexSet.normalize indexes)).Justified timestamp s := by
  obtain ⟨items, hlist⟩ := list?_of_removableAt h
  refine ⟨items, hlist, IndexSet.pairwise_normalize indexes, ?_⟩
  rw [Store.removableAt, Store.list, hlist] at h
  simp only [bind, Except.bind, pure, Except.pure, Except.ok.injEq] at h
  obtain ⟨index, hindex⟩ : ∃ index, index ∈ (IndexSet.normalize indexes).filter
      fun index => 0 ≤ index.toInt && index.toInt < (items.length : Int) := by
    refine List.exists_mem_of_ne_nil _ fun hnone => hsome ?_
    rw [← h, hnone]
    rfl
  obtain ⟨hmember, hinside⟩ := List.mem_filter.mp hindex
  rw [Bool.and_eq_true, decide_eq_true_iff, decide_eq_true_iff] at hinside
  exact Store.length_removePositions_lt hmember hinside.1 hinside.2

theorem justified_delete (h : s.isExpired key timestamp = true) :
    (Command.delete key).Justified timestamp s := by
  rw [Store.isExpired, Option.any_eq_true] at h
  exact h

/-! ## Applying -/

/-- The value that a pop command names is the one that is popped. -/
theorem run_pop_of_justified {side : Side} {value : Bytes}
    (h : (Command.pop side key value).Justified timestamp s) :
    ∃ t, (Store.pop side key).run s = (.ok value, t) := by
  obtain ⟨rest, hlist⟩ := h
  rw [Store.run_pop, hlist]
  simp only [Side.peek?_insert]
  exact ⟨_, rfl⟩

theorem apply_of_justified {command : Command} (h : command.Justified timestamp s) :
    ∃ count t, (Store.apply command timestamp).run s = (.ok count, t) := by
  cases command with
  | push side key value => exact ⟨_, _, rfl⟩
  | pop side key value =>
    obtain ⟨t, hpop⟩ := run_pop_of_justified h
    rw [Store.apply, Attempt.run_bind_ok hpop]
    exact ⟨_, t, rfl⟩
  | remove key count value =>
    obtain ⟨items, hlist, -⟩ := h
    rw [Store.apply, Store.run_remove, hlist]
    exact ⟨_, _, rfl⟩
  | replace key index value =>
    obtain ⟨items, hlist, hfirst, hlast⟩ := h
    have hinside : ¬(index < 0 ∨ items.length ≤ index.toInt) := by
      rw [Int64.lt_iff_toInt_lt, Int64.toInt_zero]
      omega
    rw [Store.apply, Attempt.run_bind, Store.run_replace, hlist]
    simp only [hinside, if_false]
    exact ⟨_, _, rfl⟩
  | trim key start stop =>
    obtain ⟨items, hlist, -⟩ := h
    rw [Store.apply, Attempt.run_bind, Store.run_trim, hlist]
    exact ⟨_, _, rfl⟩
  | removeAt key indexes =>
    obtain ⟨items, hlist, -⟩ := h
    rw [Store.apply, Store.run_removeAt, hlist]
    exact ⟨_, _, rfl⟩
  | expire key ttl => exact ⟨_, _, rfl⟩
  | delete key => exact ⟨_, _, rfl⟩

/-- A push is the only command that registers a key, and it is justified for plain keys only. -/
theorem plainKeys_of_apply {command : Command} (h : command.Justified timestamp s) {count : Nat} {t : Store}
    (hrun : (Store.apply command timestamp).run s = (.ok count, t))
    (hplain : ∀ other items, s.list? other = some items → containsSeparator other = false)
    {other : Bytes} {items : List Bytes} (hlist : t.list? other = some items) :
    containsSeparator other = false := by
  cases Store.changes_of_apply hrun with
  | put origin kept =>
    rw [Store.list?_putList] at hlist
    split at hlist
    · rename_i hkey
      subst hkey
      rcases origin with ⟨before, hbefore⟩ | ⟨side, value, hpush⟩
      · exact hplain _ before hbefore
      · rw [hpush] at h
        exact h
    · exact hplain other items hlist
  | expire key ttl => exact hplain other items hlist
  | delete key =>
    rw [Store.list?_erase] at hlist
    split at hlist
    · cases hlist
    · exact hplain other items hlist

end Command

/-! ## Records -/

/-- Whether a record holds a command that is justified in the store of its bucket. -/
def Record.Justified (index : Index) (r : Record) : Prop :=
  ∃ command, r.command = .ok command ∧
    command.Justified r.timestamp ((index.store? r.bucket).getD ∅)

namespace Index

/-- Whether no registered key holds a separator. -/
def PlainKeys (index : Index) : Prop := ∀ bucket store, index.store? bucket = some store →
  ∀ key items, store.list? key = some items → containsSeparator key = false

/-- Whether each of the records is justified where those before it have been applied. -/
def Justifies : Index → List Record → Prop
  | _, [] => True
  | index, r :: rs => r.Justified index ∧ Justifies ((applyRecord r).run index).2 rs

variable {index middle next : Index} {r : Record} {rs ts : List Record}

theorem applyRecord_of_justified (h : r.Justified index) :
    ∃ count next, (applyRecord r).run index = (.ok count, next) := by
  obtain ⟨command, hcommand, hjustified⟩ := h
  obtain ⟨count, t, hrun⟩ := Command.apply_of_justified hjustified
  rw [run_applyRecord hcommand, hrun]
  exact ⟨count, _, rfl⟩

theorem PlainKeys.empty : (∅ : Index).PlainKeys := by
  intro bucket store h
  rw [store?_empty] at h
  cases h

theorem PlainKeys.applyRecord (h : index.PlainKeys) (hr : r.Justified index) {count : Nat}
    (hrun : (applyRecord r).run index = (.ok count, next)) : next.PlainKeys := by
  obtain ⟨command, hcommand, hjustified⟩ := hr
  obtain ⟨count', t, happly⟩ := Command.apply_of_justified hjustified
  rw [run_applyRecord hcommand, happly] at hrun
  cases hrun
  intro bucket store hstore key items hlist
  rw [store?_install] at hstore
  split at hstore
  · cases hstore
    refine Command.plainKeys_of_apply hjustified happly (fun other items hother => ?_) hlist
    cases hbefore : index.store? r.bucket with
    | none =>
      rw [hbefore] at hother
      cases hother
    | some before =>
      rw [hbefore] at hother
      exact h r.bucket before hbefore other items hother
  · exact h bucket store hstore key items hlist

namespace Justifies

theorem replay (h : index.Justifies rs) : ∃ stop, (replay rs).run index = (.ok (), stop) := by
  induction rs generalizing index with
  | nil => exact ⟨index, rfl⟩
  | cons r rs ih =>
    obtain ⟨hr, hrest⟩ := h
    obtain ⟨count, next, hrun⟩ := applyRecord_of_justified hr
    rw [hrun] at hrest
    rw [run_replay_cons_ok hrun]
    exact ih hrest

theorem append_iff (hrun : (Index.replay rs).run index = (.ok (), middle)) :
    index.Justifies (rs ++ ts) ↔ index.Justifies rs ∧ middle.Justifies ts := by
  induction rs generalizing index with
  | nil =>
    cases hrun
    rw [List.nil_append, Justifies, true_and]
  | cons r rs ih =>
    obtain ⟨count, next, hr, hrest⟩ := of_run_replay_cons hrun
    rw [List.cons_append, Justifies, Justifies, hr, ih hrest, and_assoc]

/-- Sealing changes nothing that justifies a record. -/
theorem sealBatch_iff (txId : UInt64) (rs : List Record) (index : Index) :
    index.Justifies (Record.sealBatch txId rs) ↔ index.Justifies rs := by
  fun_induction Record.sealBatch txId rs generalizing index with
  | case1 => exact Iff.rfl
  | case2 r => exact Iff.rfl
  | case3 r rs _ ih => exact and_congr_right fun _ => ih _

theorem plainKeys (h : index.Justifies rs) (hplain : index.PlainKeys)
    (hrun : (Index.replay rs).run index = (.ok (), next)) : next.PlainKeys := by
  induction rs generalizing index with
  | nil =>
    cases hrun
    exact hplain
  | cons r rs ih =>
    obtain ⟨hr, hrest⟩ := h
    obtain ⟨count, middle, happly⟩ := applyRecord_of_justified hr
    rw [happly] at hrest
    rw [run_replay_cons_ok happly] at hrun
    exact ih hrest (hplain.applyRecord hr happly) hrun

/-- After any number of the records, the next one is justified. -/
theorem take (h : index.Justifies rs) (n : Nat) :
    ∃ middle, (Index.replay (rs.take n)).run index = (.ok (), middle) ∧ index.Justifies (rs.take n) ∧
      ∀ r, rs[n]? = some r → r.Justified middle := by
  induction n generalizing rs index with
  | zero =>
    refine ⟨index, rfl, trivial, fun r hr => ?_⟩
    cases rs with
    | nil => cases hr
    | cons first rs =>
      cases hr
      exact h.1
  | succ n ih =>
    cases rs with
    | nil => exact ⟨index, rfl, trivial, fun r hr => by cases hr⟩
    | cons first rs =>
      obtain ⟨hfirst, hrest⟩ := h
      obtain ⟨count, next, hrun⟩ := applyRecord_of_justified hfirst
      rw [hrun] at hrest
      obtain ⟨middle, hreplay, hjustified, hnext⟩ := ih hrest
      refine ⟨middle, ?_, ⟨hfirst, ?_⟩, hnext⟩
      · rw [List.take_succ_cons, run_replay_cons_ok hrun, hreplay]
      · rw [hrun]
        exact hjustified

end Justifies

end Index

end DurableLists

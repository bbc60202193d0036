import DurableLists.Database
import DurableLists.Proofs.Attempt
import DurableLists.Proofs.Log.Batches

/-!
# The index as a function

An index is known by the stores of its buckets (`Index.ext_store?`). Installing a working copy shows the
copies where there are any and the committed stores elsewhere, as a transaction sees them
(`Database.store?_installAll`). A replay goes record by record, and sealing a batch changes nothing that a
replay looks at (`Index.replay_sealBatch`).
-/

set_option autoImplicit false

namespace DurableLists

namespace Index

/-! ## Stores of buckets -/

theorem ext_store? {index other : Index} (h : ∀ bucket, index.store? bucket = other.store? bucket) :
    index = other := by
  cases index
  cases other
  exact congrArg Index.mk (Std.ExtTreeMap.ext_getElem? h)

@[simp] theorem store?_empty (bucket : String) : (∅ : Index).store? bucket = none :=
  Std.ExtTreeMap.getElem?_empty

theorem store?_install (index : Index) (bucket other : String) (store : Store) :
    (index.install bucket store).store? other =
      if bucket = other then some store else index.store? other := by
  refine Std.ExtTreeMap.getElem?_insert.trans ?_
  simp only [Std.compare_eq_iff_eq]
  rfl

@[simp] theorem store?_install_self (index : Index) (bucket : String) (store : Store) :
    (index.install bucket store).store? bucket = some store := by
  rw [store?_install, if_pos rfl]

theorem install_install (index : Index) (bucket : String) (store later : Store) :
    (index.install bucket store).install bucket later = index.install bucket later := by
  refine ext_store? fun other => ?_
  simp only [store?_install]
  split <;> rfl

/-! ## Replays -/

/-- A record whose command can be read makes the change of the command in the store of its bucket. -/
theorem run_applyRecord {r : Record} {command : Command} (h : r.command = .ok command) (index : Index) :
    (applyRecord r).run index =
      (((Store.apply command r.timestamp).run ((index.store? r.bucket).getD ∅)).1,
        index.install r.bucket
          ((Store.apply command r.timestamp).run ((index.store? r.bucket).getD ∅)).2) := by
  have hcommand : (Attempt.ofExcept r.command).run index = (.ok command, index) := by
    rw [Attempt.run_ofExcept, h]
  rw [applyRecord, Attempt.run_bind_ok hcommand]
  rfl

theorem run_replay_cons_ok {r : Record} {rs : List Record} {index next : Index} {count : Nat}
    (h : (applyRecord r).run index = (.ok count, next)) :
    (replay (r :: rs)).run index = (replay rs).run next := by
  rw [replay, Attempt.run_bind_ok h]

theorem run_replay_append {rs ts : List Record} {index next : Index}
    (h : (replay rs).run index = (.ok (), next)) :
    (replay (rs ++ ts)).run index = (replay ts).run next := by
  induction rs generalizing index with
  | nil =>
    rw [replay, Attempt.run_pure] at h
    cases h
    rfl
  | cons r rs ih =>
    rw [replay, Attempt.run_bind] at h
    rw [List.cons_append, replay, Attempt.run_bind]
    revert h
    rcases (applyRecord r).run index with ⟨_ | count, middle⟩
    · intro h
      cases h
    · exact ih

theorem run_replay_concat {rs : List Record} {r : Record} {index middle next : Index} {count : Nat}
    (h : (replay rs).run index = (.ok (), middle)) (hr : (applyRecord r).run middle = (.ok count, next)) :
    (replay (rs ++ [r])).run index = (.ok (), next) := by
  rw [run_replay_append h, run_replay_cons_ok hr]
  rfl

theorem of_run_applyRecord {r : Record} {index next : Index} {count : Nat}
    (h : (applyRecord r).run index = (.ok count, next)) :
    ∃ command store, r.command = .ok command ∧
      (Store.apply command r.timestamp).run ((index.store? r.bucket).getD ∅) = (.ok count, store) ∧
      next = index.install r.bucket store := by
  cases hcommand : r.command with
  | error e =>
    have hfails : (Attempt.ofExcept r.command).run index = (.error e, index) := by
      rw [Attempt.run_ofExcept, hcommand]
    rw [applyRecord, Attempt.run_bind_error hfails] at h
    cases h
  | ok command =>
    rw [run_applyRecord hcommand] at h
    cases hstore : (Store.apply command r.timestamp).run ((index.store? r.bucket).getD ∅) with
    | mk outcome store =>
      rw [hstore] at h
      cases h
      exact ⟨command, store, rfl, hstore, rfl⟩

theorem of_run_replay_cons {r : Record} {rs : List Record} {index stop : Index}
    (h : (replay (r :: rs)).run index = (.ok (), stop)) :
    ∃ count next, (applyRecord r).run index = (.ok count, next) ∧ (replay rs).run next = (.ok (), stop) := by
  cases hr : (applyRecord r).run index with
  | mk outcome next =>
    cases outcome with
    | error e =>
      rw [replay, Attempt.run_bind_error hr] at h
      cases h
    | ok count =>
      rw [run_replay_cons_ok hr] at h
      exact ⟨count, next, rfl, h⟩

theorem of_run_replay_append {rs ts : List Record} {start stop : Index}
    (h : (replay (rs ++ ts)).run start = (.ok (), stop)) :
    ∃ middle, (replay rs).run start = (.ok (), middle) ∧ (replay ts).run middle = (.ok (), stop) := by
  induction rs generalizing start with
  | nil => exact ⟨start, rfl, h⟩
  | cons r rs ih =>
    obtain ⟨count, next, hr, hrest⟩ := of_run_replay_cons h
    obtain ⟨middle, hfront, hrear⟩ := ih hrest
    exact ⟨middle, (run_replay_cons_ok hr).trans hfront, hrear⟩

/-- What a replay makes of a bucket, it makes by the records of that bucket alone. -/
theorem run_replay_filter {rs : List Record} {bucket : String} {start stop other : Index}
    (h : (replay rs).run start = (.ok (), stop)) (hstart : other.store? bucket = start.store? bucket) :
    ∃ last, (replay (rs.filter fun r => r.bucket = bucket)).run other = (.ok (), last) ∧
      last.store? bucket = stop.store? bucket := by
  induction rs generalizing start other with
  | nil =>
    cases h
    exact ⟨other, rfl, hstart⟩
  | cons r rs ih =>
    obtain ⟨count, next, hr, hrest⟩ := of_run_replay_cons h
    obtain ⟨command, store, hcommand, hstore, rfl⟩ := of_run_applyRecord hr
    by_cases hbucket : r.bucket = bucket
    · subst hbucket
      have hother : (applyRecord r).run other = (.ok count, other.install r.bucket store) := by
        rw [run_applyRecord hcommand, hstart, hstore]
      have hsame : (other.install r.bucket store).store? r.bucket =
          (start.install r.bucket store).store? r.bucket := by
        rw [store?_install_self, store?_install_self]
      rw [List.filter_cons_of_pos (by simp), run_replay_cons_ok hother]
      exact ih hrest hsame
    · rw [List.filter_cons_of_neg (by simpa using hbucket)]
      refine ih hrest ?_
      rw [store?_install, if_neg hbucket, hstart]

/-- A replay creates the buckets that its records name, and no others. -/
theorem isSome_store?_of_replay {rs : List Record} {bucket : String} {start stop : Index}
    (h : (replay rs).run start = (.ok (), stop)) :
    (stop.store? bucket).isSome ↔ (start.store? bucket).isSome ∨ ∃ r ∈ rs, r.bucket = bucket := by
  induction rs generalizing start with
  | nil =>
    cases h
    simp
  | cons r rs ih =>
    obtain ⟨count, next, hr, hrest⟩ := of_run_replay_cons h
    obtain ⟨command, store, -, -, rfl⟩ := of_run_applyRecord hr
    rw [ih hrest, store?_install]
    by_cases hbucket : r.bucket = bucket
    · simp [hbucket]
    · simp [hbucket]

/-- A replay does not look at what sealing changes. -/
theorem replay_sealBatch (txId : UInt64) (rs : List Record) :
    replay (Record.sealBatch txId rs) = replay rs := by
  fun_induction Record.sealBatch txId rs with
  | case1 => rfl
  | case2 r => rfl
  | case3 r rs _ ih =>
    have hr : applyRecord { r with txId, status := .uncommitted } = applyRecord r := rfl
    rw [replay, replay, hr, ih]

end Index

namespace Database

/-! ## Installing a working copy -/

theorem store?_foldl_install (stores : List (String × Store))
    (hdistinct : stores.Pairwise fun p q => ¬compare p.1 q.1 = .eq) (index : Index) (bucket : String) :
    (∀ store, (bucket, store) ∈ stores →
        (stores.foldl (fun index p => index.install p.1 p.2) index).store? bucket = some store) ∧
      ((∀ store, (bucket, store) ∉ stores) →
        (stores.foldl (fun index p => index.install p.1 p.2) index).store? bucket =
          index.store? bucket) := by
  induction stores generalizing index with
  | nil => exact ⟨by simp, fun _ => rfl⟩
  | cons p stores ih =>
    obtain ⟨hfirst, hrest⟩ := List.pairwise_cons.mp hdistinct
    obtain ⟨hfound, hmissing⟩ := ih hrest (index.install p.1 p.2)
    rw [List.foldl_cons]
    refine ⟨?_, ?_⟩
    · intro store hstore
      rcases List.mem_cons.mp hstore with rfl | hstore
      · rw [hmissing, Index.store?_install_self]
        intro later hlater
        exact hfirst _ hlater (by simp)
      · exact hfound store hstore
    · intro hnone
      rw [hmissing fun store h => hnone store (List.mem_cons_of_mem _ h), Index.store?_install, if_neg]
      rintro rfl
      exact hnone p.2 (by simp)

/-- A bucket of an index with copies installed is the copy if there is one. -/
theorem store?_installAll (index working : Index) (bucket : String) :
    (installAll index working).store? bucket = (working.store? bucket).or (index.store? bucket) := by
  have hstores := store?_foldl_install working.buckets.toList Std.ExtTreeMap.distinct_keys_toList index
    bucket
  rw [installAll, Std.ExtTreeMap.foldl_eq_foldl_toList]
  cases h : working.store? bucket with
  | none =>
    rw [Option.none_or]
    refine hstores.2 fun store hstore => ?_
    rw [Std.ExtTreeMap.mem_toList_iff_getElem?_eq_some] at hstore
    rw [Index.store?, hstore] at h
    cases h
  | some store =>
    rw [Option.some_or]
    exact hstores.1 store (Std.ExtTreeMap.mem_toList_iff_getElem?_eq_some.mpr h)

theorem installAll_install (index working : Index) (bucket : String) (store : Store) :
    installAll index (working.install bucket store) = (installAll index working).install bucket store := by
  refine Index.ext_store? fun other => ?_
  simp only [store?_installAll, Index.store?_install]
  split <;> rfl

theorem installAll_empty (index : Index) : installAll index ∅ = index := by
  refine Index.ext_store? fun bucket => ?_
  rw [store?_installAll, Index.store?_empty, Option.none_or]

end Database

end DurableLists

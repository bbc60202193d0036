import DurableLists.Proofs.Index.Edits

/-!
# The buckets of an index

A record that is applied has effect in a bucket, and the bucket is there from then on. But the bucket is created before
the command of the record is tried: a record that can be read, and whose command then fails, leaves an empty bucket
where there was none. `Index.buckets_exact` says precisely which buckets there are after any records, applied one after
another whatever becomes of each, and what a record changes that fails: nothing, unless it leaves a new bucket.
-/

set_option autoImplicit false

namespace DurableLists

/-- Whether a record is one of a bucket and has a command that can be read. -/
def Record.ReadableIn (bucket : String) (r : Record) : Prop :=
  r.bucket = bucket ∧ ∃ command, r.command = .ok command

namespace Index

/-- What an index becomes by records that are applied one after another, whatever becomes of each. -/
def applyAll : List Record → Index → Index
  | [], index => index
  | r :: rs, index => applyAll rs ((applyRecord r).run index).2

/-- The records among them that have effect. -/
def effective : List Record → Index → List Record
  | [], _ => []
  | r :: rs, index =>
    match (applyRecord r).run index with
    | (.ok _, next) => r :: effective rs next
    | (.error _, next) => effective rs next

variable {index next : Index} {bucket : String} {r : Record} {rs : List Record} {count : Nat} {e : Error}

/-! ## One record -/

theorem readable_of_run_applyRecord (h : (applyRecord r).run index = (.ok count, next)) : r.ReadableIn r.bucket := by
  obtain ⟨command, -, hcommand, -⟩ := of_run_applyRecord h
  exact ⟨rfl, command, hcommand⟩

/-- A record that cannot be read changes nothing. -/
theorem run_applyRecord_unreadable (h : ¬r.ReadableIn r.bucket) (index : Index) :
    ∃ e, (applyRecord r).run index = (.error e, index) := by
  cases hcommand : r.command with
  | ok command => exact absurd ⟨rfl, command, hcommand⟩ h
  | error e =>
    refine ⟨e, Attempt.run_bind_error ?_⟩
    rw [Attempt.run_ofExcept, hcommand]

/-- A record that can be read and fails puts the store of its bucket back, or an empty one in its place. -/
theorem eq_install_of_error (h : (applyRecord r).run index = (.error e, next)) (hreadable : r.ReadableIn r.bucket) :
    next = index.install r.bucket ((index.store? r.bucket).getD ∅) := by
  obtain ⟨-, command, hcommand⟩ := hreadable
  rw [run_applyRecord hcommand, Prod.mk.injEq] at h
  obtain ⟨hfails, rfl⟩ := h
  exact congrArg (index.install r.bucket) (Store.eq_of_apply_error (Prod.ext hfails rfl))

theorem install_of_store? {store : Store} (h : index.store? bucket = some store) :
    index.install bucket store = index := by
  refine ext_store? fun other => ?_
  rw [store?_install]
  split_ifs with hother
  · rw [← hother, h]
  · rfl

theorem size_install_of_none (h : index.store? bucket = none) (store : Store) :
    (index.install bucket store).size = index.size + 1 := by
  have hmissing : bucket ∉ index.buckets := by
    rw [Std.ExtTreeMap.mem_iff_contains, Std.ExtTreeMap.contains_eq_isSome_getElem?]
    exact Option.not_isSome_iff_eq_none.mpr h
  exact Std.ExtTreeMap.size_insert.trans (if_neg hmissing)

/-- What a record that fails leaves. -/
theorem eq_or_install_of_error (h : (applyRecord r).run index = (.error e, next)) :
    (next = index ∧ ¬(r.ReadableIn r.bucket ∧ index.store? r.bucket = none)) ∨
      (next = index.install r.bucket ∅ ∧ r.ReadableIn r.bucket ∧ index.store? r.bucket = none) := by
  by_cases hreadable : r.ReadableIn r.bucket
  · obtain rfl := eq_install_of_error h hreadable
    cases hstore : index.store? r.bucket with
    | none => exact Or.inr ⟨rfl, hreadable, rfl⟩
    | some store => exact Or.inl ⟨install_of_store? hstore, fun hnone => nomatch hnone.2⟩
  · obtain ⟨_, hunreadable⟩ := run_applyRecord_unreadable hreadable index
    cases h.symm.trans hunreadable
    exact Or.inl ⟨rfl, fun hnone => hreadable hnone.1⟩

/-! ## Records one after another -/

theorem isSome_store?_applyRecord (index : Index) (r : Record) (bucket : String) :
    (((applyRecord r).run index).2.store? bucket).isSome ↔ (index.store? bucket).isSome ∨ r.ReadableIn bucket := by
  by_cases hreadable : r.ReadableIn r.bucket
  · obtain ⟨-, command, hcommand⟩ := hreadable
    rw [run_applyRecord hcommand, store?_install]
    by_cases hbucket : r.bucket = bucket
    · simp [hbucket, Record.ReadableIn, hcommand]
    · simp [hbucket, Record.ReadableIn]
  · obtain ⟨e, hrun⟩ := run_applyRecord_unreadable hreadable index
    have hapart : ¬r.ReadableIn bucket := fun h => hreadable ⟨rfl, h.2⟩
    simp [hrun, hapart]

/-- The buckets are those of the records that can be read. -/
theorem isSome_store?_applyAll (rs : List Record) (index : Index) (bucket : String) :
    ((applyAll rs index).store? bucket).isSome ↔ (index.store? bucket).isSome ∨ ∃ r ∈ rs, r.ReadableIn bucket := by
  induction rs generalizing index with
  | nil => simp [applyAll]
  | cons r rs ih => rw [applyAll, ih, isSome_store?_applyRecord, or_assoc, List.exists_mem_cons_iff]

theorem readable_of_effective (h : r ∈ effective rs index) : r ∈ rs ∧ r.ReadableIn r.bucket := by
  induction rs generalizing index with
  | nil => cases h
  | cons first rs ih =>
    rw [effective] at h
    split at h
    · rename_i count next hrun
      rcases List.mem_cons.mp h with rfl | h
      · exact ⟨List.mem_cons_self, readable_of_run_applyRecord hrun⟩
      · exact (ih h).imp_left (List.mem_cons_of_mem first)
    · exact (ih h).imp_left (List.mem_cons_of_mem first)

/-- A bucket in which no record has effect keeps its lists, and stays empty if it was not there. -/
theorem getD_store?_applyAll (h : ∀ r ∈ effective rs index, r.bucket ≠ bucket) :
    ((applyAll rs index).store? bucket).getD ∅ = (index.store? bucket).getD ∅ := by
  induction rs generalizing index with
  | nil => rfl
  | cons r rs ih =>
    rw [effective] at h
    rw [applyAll]
    split at h
    · rename_i count next hrun
      obtain ⟨hapart, hrest⟩ := List.forall_mem_cons.mp h
      obtain ⟨-, store, -, -, rfl⟩ := of_run_applyRecord hrun
      rw [hrun, ih hrest, store?_install, if_neg hapart]
    · rename_i e next hrun
      rw [hrun, ih h]
      rcases eq_or_install_of_error hrun with ⟨rfl, -⟩ | ⟨rfl, -, hnone⟩
      · rfl
      · rw [store?_install]
        split_ifs with hbucket
        · rw [← hbucket, hnone]
          rfl
        · rfl

/-- The buckets of an index that records have made. A record that fails now changes nothing, unless it can be read and
there is no such bucket: then it leaves the bucket, empty, and one bucket more. So a bucket is there just if there has
been a record of it that can be read. If one has had effect the bucket is there, and if none has the bucket is empty,
should it be there. -/
theorem buckets_exact (rs : List Record) :
    (∀ r e next, (applyRecord r).run (applyAll rs ∅) = (.error e, next) →
      (next = applyAll rs ∅ ↔ ¬(r.ReadableIn r.bucket ∧ (applyAll rs ∅).store? r.bucket = none)) ∧
      (r.ReadableIn r.bucket ∧ (applyAll rs ∅).store? r.bucket = none →
        next = (applyAll rs ∅).install r.bucket ∅ ∧ next.size = (applyAll rs ∅).size + 1)) ∧
    ∀ bucket,
      (((applyAll rs ∅).store? bucket).isSome ↔ ∃ r ∈ rs, r.ReadableIn bucket) ∧
      ((∃ r ∈ effective rs ∅, r.bucket = bucket) → ((applyAll rs ∅).store? bucket).isSome) ∧
      ((∀ r ∈ effective rs ∅, r.bucket ≠ bucket) →
        ∀ store, (applyAll rs ∅).store? bucket = some store → store = ∅) := by
  refine ⟨fun r e next h => ?_, fun bucket => ⟨?_, ?_, fun hnone store hstore => ?_⟩⟩
  · rcases eq_or_install_of_error h with ⟨rfl, hsame⟩ | ⟨rfl, hleft⟩
    · exact ⟨iff_of_true rfl hsame, fun hleft => absurd hleft hsame⟩
    · have hsize := size_install_of_none hleft.2 ∅
      refine ⟨iff_of_false (fun hsame => ?_) (not_not_intro hleft), fun _ => ⟨rfl, hsize⟩⟩
      rw [hsame] at hsize
      omega
  · rw [isSome_store?_applyAll, store?_empty]
    simp
  · rintro ⟨r, hr, rfl⟩
    obtain ⟨hmem, hreadable⟩ := readable_of_effective hr
    exact (isSome_store?_applyAll rs ∅ r.bucket).mpr (Or.inr ⟨r, hmem, hreadable⟩)
  · have hempty := getD_store?_applyAll hnone
    rw [hstore, store?_empty] at hempty
    exact hempty

/-- A pop that finds no list. -/
def idlePop : Record := ⟨"b", [107], [97], .pop .head, 1, 0, 0, .uncommitted⟩

/-- The pop fails and leaves a bucket, in which no record has had effect. -/
theorem bucket_left_by_idlePop : ∃ next, (applyRecord idlePop).run ∅ = (.error .keyNotFound, next) ∧
    next = (∅ : Index).install "b" ∅ ∧ next.size = 1 ∧ effective [idlePop] ∅ = [] ∧
    (applyAll [idlePop] ∅).store? "b" = some ∅ := by
  have hcommand : idlePop.command = .ok (.pop .head [107] [97]) := rfl
  have hreadable : idlePop.ReadableIn "b" := ⟨rfl, _, hcommand⟩
  have hfails : ((applyRecord idlePop).run ∅).1 = .error .keyNotFound := by
    rw [run_applyRecord hcommand, store?_empty]
    rfl
  have hrun : (applyRecord idlePop).run ∅ = (.error .keyNotFound, ((applyRecord idlePop).run ∅).2) :=
    Prod.ext hfails rfl
  have hnone : effective [idlePop] ∅ = [] := by
    rw [effective, hrun]
    rfl
  obtain ⟨hfailure, -⟩ := buckets_exact []
  obtain ⟨hnext, hsize⟩ := (hfailure _ _ _ hrun).2 ⟨hreadable, store?_empty "b"⟩
  obtain ⟨-, hall⟩ := buckets_exact [idlePop]
  obtain ⟨hthere, -, hempty⟩ := hall "b"
  obtain ⟨store, hstore⟩ := Option.isSome_iff_exists.mp (hthere.mpr ⟨idlePop, List.mem_singleton_self _, hreadable⟩)
  refine ⟨_, hrun, hnext, hsize, hnone, ?_⟩
  rw [hstore, hempty (by simp [hnone]) store hstore]

end Index

end DurableLists

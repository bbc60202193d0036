import DurableLists.Proofs.Session.Numbers
import DurableLists.Proofs.Session.Starts

/-!
# The shape of a log

A log that was empty when it was opened first, and whose file takes every request, holds one batch for each commit
that had something to commit, and nothing else (`Session.log_shape`): the batches are in the order of the commits,
their ids ascend, reopenings included, and each batch is what was staged, with the id of the commit and the mark on
the last record.
-/

set_option autoImplicit false

namespace DurableLists

/-- The records that a submission has sealed: the staged ones, all under its id, the last one marked as closing. -/
def Submission.sealed (t : Submission) : List Record :=
  t.pending.mapIdx fun i r =>
    { r with txId := t.txId, status := if i + 1 = t.pending.length then .committed else .uncommitted }

theorem Submission.commit?_of_ok {t : Submission} (h : t.outcome = .ok ()) :
    t.commit? = some ⟨t.txId, t.pending, t.index⟩ := by
  rw [commit?, h]

theorem Submission.map_batch {ts : List Submission} (h : ∀ t ∈ ts, t.outcome = .ok ()) :
    (ts.filterMap commit?).map Commit.batch = ts.map sealed := by
  induction ts with
  | nil => rfl
  | cons t ts ih =>
    have ht := commit?_of_ok (h t (by simp))
    have hbatch : Commit.batch ⟨t.txId, t.pending, t.index⟩ = t.sealed :=
      Record.sealBatch_eq_mapIdx t.txId t.pending
    rw [List.filterMap_cons_some ht, List.map_cons, List.map_cons, hbatch, ih fun u hu => h u (by simp [hu])]

namespace Session

open Database

variable {α : Type} {machine : Machine} {config : Config} {s : Session}

theorem Starts.ahead_of_nil (h : Starts machine config [] s) : Ahead [] s := by
  obtain ⟨place, kept, dropped, tail, db, hsplits, hdb, -, hopened⟩ := h.met
  obtain ⟨rfl, rfl⟩ := hsplits.eq_nil
  refine ⟨by decide, fun db' hdb' => ?_⟩
  rw [hdb] at hdb'
  cases hdb'
  rw [show db.nextTxId = (Scan.after ([] ++ [])).lastTxId + 1 from hopened.nextTxId_eq]
  decide

/-- After any run on a log that was empty when it was opened first, with records that fit and ids below the greatest
one, the log is read as one batch for each commit that had something to commit, all of which have succeeded: in the
order of the commits, each batch what was staged, under the id of the commit, with the mark on the last record alone.
The ids ascend and are below the next one, and every octet of the file belongs to a batch. -/
theorem log_shape (hstart : Starts machine config [] s) (actions : List (Action α))
    (hstays : ∀ action ∈ actions, action.StaysOn config.persistence.logPath)
    (hfits : ∀ t ∈ submissions actions s, ∀ r ∈ t.pending, Frame.Fits r)
    (hids : ∀ t ∈ submissions actions s, t.txId.toNat < maxTxId) :
    ∃ final after, (LoadedLog.read config.persistence.logPath).run (run actions s).2.machine =
        (.ok final, after) ∧
      final.transactions = (submissions actions s).map Submission.sealed ∧
      (∀ t ∈ submissions actions s, t.outcome = .ok ()) ∧
      ((submissions actions s).Pairwise fun t u => t.txId < u.txId) ∧
      (∀ live, (run actions s).2.db = some live → ∀ t ∈ submissions actions s, t.txId < live.nextTxId) ∧
      final.committedLength = final.fileLength := by
  obtain ⟨place, hbacked⟩ := hstart.backed_of_nil
  have hcommits (c : Commit) (hc : c ∈ commits actions s) :
      ∃ t ∈ submissions actions s, t.pending = c.pending ∧ t.txId = c.txId := by
    rw [← filterMap_submissions] at hc
    obtain ⟨t, ht, hcommit⟩ := List.mem_filterMap.mp hc
    refine ⟨t, ht, ?_⟩
    rw [Submission.commit?] at hcommit
    split at hcommit <;> cases hcommit
    exact ⟨rfl, rfl⟩
  have hadmissible : Commit.Admissible [] (commits actions s) := by
    refine ⟨fun c hc r hr => ?_, Or.inr fun c hc => ?_⟩
    · obtain ⟨t, ht, hpending, -⟩ := hcommits c hc
      rw [← hpending] at hr
      exact hfits t ht r hr
    · obtain ⟨t, ht, -, hid⟩ := hcommits c hc
      rw [← hid]
      exact hids t ht
  obtain ⟨⟨stop, hstop, -⟩, hseparate⟩ := advances_run actions hbacked hstays hadmissible
  obtain ⟨hascends, hahead⟩ := ascends_run actions hbacked hstart.ahead_of_nil hstays hadmissible hids
  have hsplits := Scan.splits_encodeAll hstop.stored.fits hstop.stored.settled
  obtain ⟨scan, hread, hlog⟩ := Scan.readAll_of_splits hsplits Disk.chunkSize (by decide)
  obtain ⟨env, hfinal⟩ := LoadedLog.read_of_holds hstop.stored.holds hread
  refine ⟨scan.log, _, hfinal, ?_, hascends.succeed, hascends.ascending, fun live hlive t ht => ?_, ?_⟩
  · rw [hlog, ← Submission.map_batch hascends.succeed, filterMap_submissions]
    exact hseparate.transactions.1
  · -- The id of a commit is in the log, and the next id is above all that are.
    have hmem : (⟨t.txId, t.pending, t.index⟩ : Commit) ∈ commits actions s := by
      rw [← filterMap_submissions]
      exact List.mem_filterMap.mpr ⟨t, ht, Submission.commit?_of_ok (hascends.succeed t ht)⟩
    obtain ⟨r, hr, hid⟩ := Commit.exists_mem_batch (hseparate _ hmem).1
    have hseen := Scan.le_lastTxId_of_mem (List.mem_append_right [] (List.mem_flatMap.mpr ⟨_, hmem, hr⟩))
    have hnext := UInt64.lt_iff_toNat_lt.mp (hahead.next live hlive)
    have ht : r.txId.toNat = t.txId.toNat := by rw [hid]
    rw [UInt64.lt_iff_toNat_lt]
    exact Nat.lt_of_le_of_lt (ht ▸ hseen) hnext
  · rw [hlog]

set_option maxRecDepth 20000 in
theorem newLog_submissions :
    (submissions sampleActions newLog).map (fun t => (t.txId, t.pending)) = sampleCommitted 1 := by
  cbv

theorem log_shape_of_sample : ∃ final after, (LoadedLog.read sampleConfig.persistence.logPath).run
      (run sampleActions newLog).2.machine = (.ok final, after) ∧
    final.transactions =
      [[{ sampleRecord [97] with txId := 1 }, { sampleRecord [98] with txId := 1 },
          { stagedRecord .expire [53] 100 with txId := 1, status := .committed }],
        [{ stagedRecord (.pop .head) [97] 100 with txId := 2, status := .committed }],
        [{ stagedRecord .delete [] 200 with txId := 3 },
          { stagedRecord (.push .tail) [100] 200 with txId := 3, status := .committed }]] ∧
    final.committedLength = final.fileLength := by
  have hadmissible : ∀ p ∈ sampleCommitted 1, (∀ r ∈ p.2, Frame.Fits r) ∧ p.1.toNat < maxTxId := by decide
  rw [← newLog_submissions] at hadmissible
  have hsubmissions := List.forall_mem_map.mp hadmissible
  obtain ⟨final, after, hread, htransactions, -, -, -, hlength⟩ := log_shape newLog_starts sampleActions
    sampleActions_stay (fun t ht => (hsubmissions t ht).1) (fun t ht => (hsubmissions t ht).2)
  refine ⟨final, after, hread, ?_, hlength⟩
  have hsealed : (submissions sampleActions newLog).map Submission.sealed =
      ((submissions sampleActions newLog).map fun t => (t.txId, t.pending)).map fun p =>
        (⟨p.1, p.2, .ok (), ∅⟩ : Submission).sealed := by
    rw [List.map_map]
    rfl
  rw [htransactions, hsealed, newLog_submissions]
  rfl

end Session

end DurableLists

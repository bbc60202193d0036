import DurableLists.Proofs.Session.Runs
import DurableLists.Proofs.Session.Tracks

/-!
# The numbers of commits

Between two openings the commits that have something to commit take the ids from that of the database on, one after
another, and on a log that takes every request all of them succeed (`Database.Accepted`). A database that is opened
goes on above all ids of its log, so over a whole run the ids ascend, reopenings included (`Session.ascends_run`).
-/

set_option autoImplicit false

namespace DurableLists

namespace Submission

/-! ## Consecutive numbers -/

/-- Whether submissions take the ids from `next` on one after another, and `stop` is the one after them. -/
def Numbered : UInt64 → List Submission → UInt64 → Prop
  | next, [], stop => stop = next
  | next, t :: ts, stop => t.txId = next ∧ Numbered (next + 1) ts stop

variable {next middle stop : UInt64} {ts us : List Submission}

theorem Numbered.append (h : Numbered next ts middle) (h' : Numbered middle us stop) :
    Numbered next (ts ++ us) stop := by
  induction ts generalizing next with
  | nil =>
    rw [show middle = next from h] at h'
    exact h'
  | cons t ts ih => exact ⟨h.1, ih h.2⟩

theorem Numbered.bounds (h : Numbered next ts stop) (hids : ∀ t ∈ ts, t.txId.toNat < maxTxId) :
    next.toNat ≤ stop.toNat ∧ ∀ t ∈ ts, next.toNat ≤ t.txId.toNat ∧ t.txId.toNat < stop.toNat := by
  induction ts generalizing next with
  | nil =>
    rw [show stop = next from h]
    exact ⟨Nat.le_refl _, fun t ht => by cases ht⟩
  | cons t ts ih =>
    obtain ⟨hid, hrest⟩ := h
    have hsucc := toNat_succ (hids t (by simp))
    obtain ⟨hstop, hts⟩ := ih hrest fun u hu => hids u (by simp [hu])
    rw [hid] at hsucc
    refine ⟨by omega, fun u hu => ?_⟩
    rcases List.mem_cons.mp hu with rfl | hu
    · rw [hid]
      omega
    · obtain ⟨hlow, hhigh⟩ := hts u hu
      omega

theorem Numbered.ascending (h : Numbered next ts stop) (hids : ∀ t ∈ ts, t.txId.toNat < maxTxId) :
    ts.Pairwise fun t u => t.txId < u.txId := by
  induction ts generalizing next with
  | nil => exact .nil
  | cons t ts ih =>
    obtain ⟨hid, hrest⟩ := h
    have hlater : ∀ u ∈ ts, u.txId.toNat < maxTxId := fun u hu => hids u (by simp [hu])
    have hsucc := toNat_succ (hids t (by simp))
    rw [hid] at hsucc
    refine List.pairwise_cons.mpr ⟨fun u hu => ?_, ih hrest hlater⟩
    have hlow := ((hrest.bounds hlater).2 u hu).1
    rw [UInt64.lt_iff_toNat_lt, hid]
    omega

end Submission

namespace Database

open Submission

/-! ## Between two openings -/

/-- Whether the log of a database has a ready writer on a file that takes every request. -/
def Ready (r : Running) : Prop :=
  ∃ path place content writer, r.db.log = some writer ∧
    Writer.State.Ready ⟨writer, r.machine⟩ path place content

theorem Backed.ready {path : String} {place : Location} {rs : List Record} {r : Running}
    (h : Backed path place rs r) : Ready r := by
  obtain ⟨writer, hlog, hready⟩ := h.log
  exact ⟨path, place, _, writer, hlog, hready, h.stored.holds⟩

/-- Submissions under consecutive ids, all of which succeed if the log is ready. -/
structure Accepted (before : Running) (ts : List Submission) (after : Running) : Prop where
  numbered : Numbered before.db.nextTxId ts after.db.nextTxId
  succeed : Ready before → Ready after ∧ ∀ t ∈ ts, t.outcome = .ok ()

variable {before middle after : Running} {ts us : List Submission} {h : Handle} {draft : Draft}

theorem Accepted.trans (h : Accepted before ts middle) (h' : Accepted middle us after) :
    Accepted before (ts ++ us) after where
  numbered := h.numbered.append h'.numbered
  succeed hready := by
    obtain ⟨hmiddle, hts⟩ := h.succeed hready
    obtain ⟨hafter, hus⟩ := h'.succeed hmiddle
    exact ⟨hafter, List.forall_mem_append.mpr ⟨hts, hus⟩⟩

theorem Accepted.commit (htx : h.tx = .writing draft) (hpending : draft.pending ≠ []) :
    Accepted h.running h.submissions (Handle.commit.run h).2.running := by
  rw [Handle.submissions_writing htx hpending]
  refine ⟨⟨rfl, ?_⟩, ?_⟩
  · change (Handle.commit.run h).2.db.nextTxId = h.db.nextTxId + 1
    cases hsubmit : h.submit draft with
    | mk outcome after =>
      have hnext : after.db.nextTxId = h.db.nextTxId + 1 := by rw [Handle.db_submit hsubmit]
      cases outcome with
      | error e =>
        obtain ⟨env, hrun⟩ := Handle.run_commit_of_submit_error htx hpending hsubmit
        rw [hrun]
        exact hnext
      | ok _ =>
        obtain ⟨env, hrun⟩ := Handle.run_commit_of_submit_ok htx hpending hsubmit
        rw [hrun]
        exact hnext
  · rintro ⟨path, place, content, writer, hlog, hready⟩
    obtain ⟨s, happend, hs⟩ := hready.append (Record.sealBatch h.db.nextTxId draft.pending)
    have hlog' : h.db.log = some writer := hlog
    have happend' : (Writer.append (Record.sealBatch h.db.nextTxId draft.pending)).run ⟨writer, h.machine⟩ =
        (.ok (), s) := happend
    have hsubmit : h.submit draft = (.ok (),
        ⟨⟨h.db.config, h.db.index, some s.writer, h.db.nextTxId + 1⟩, s.machine⟩) := by
      simp only [Handle.submit, onLog, Attempt.run_ofFn, hlog', happend']
    obtain ⟨env, hrun⟩ := Handle.run_commit_of_submit_ok htx hpending hsubmit
    rw [hrun]
    exact ⟨⟨path, place, _, s.writer, rfl, hs.writer, hs.holds⟩, by simp⟩

theorem tracks_accepted : Tracks Accepted where
  quiet hdb hdisk := by
    refine ⟨by rw [hdb]; rfl, fun ⟨path, place, content, writer, hlog, hready⟩ =>
      ⟨?_, fun t ht => by cases ht⟩⟩
    refine ⟨path, place, content, writer, by rw [hdb, hlog], hready.writer, ?_⟩
    rw [hdisk]
    exact hready.holds
  trans := .trans
  commit htx hpending _ := .commit htx hpending

theorem accepted_sync (r : Running) : Accepted r [] (Database.sync.run r).2 := by
  refine ⟨?_, fun ⟨path, place, content, writer, hlog, hready⟩ => ⟨?_, fun t ht => by cases ht⟩⟩
  · change (Database.sync.run r).2.db.nextTxId = r.db.nextTxId
    rw [Database.sync, onLog, Attempt.run_ofFn]
    split <;> rfl
  · obtain ⟨s, hsync, hs⟩ := hready.sync
    simp only [Database.sync, onLog, Attempt.run_ofFn, hlog, hsync]
    exact ⟨path, place, content, s.writer, rfl, hs⟩

end Database

/-! ## Sealed records -/

/-- A batch is its records in their order, all under one id, the last one marked as closing. -/
theorem Record.sealBatch_eq_mapIdx (txId : UInt64) (rs : List Record) :
    sealBatch txId rs = rs.mapIdx fun i r =>
      { r with txId, status := if i + 1 = rs.length then .committed else .uncommitted } := by
  fun_induction sealBatch txId rs with
  | case1 => rfl
  | case2 r => rfl
  | case3 r rs hrs ih =>
    have hlength : 0 < rs.length := List.length_pos_iff.mpr hrs
    have hfirst : ¬ 0 + 1 = (r :: rs).length := by
      rw [List.length_cons]
      omega
    rw [List.mapIdx_cons, if_neg hfirst, ih]
    simp only [List.length_cons, Nat.add_right_cancel_iff]

theorem Commit.txId_of_mem_batch {c : Commit} {r : Record} (h : r ∈ c.batch) : r.txId = c.txId := by
  rw [batch, Record.sealBatch_eq_mapIdx] at h
  obtain ⟨i, hi, rfl⟩ := List.mem_mapIdx.mp h
  rfl

theorem Commit.exists_mem_batch {c : Commit} (h : c.pending ≠ []) : ∃ r ∈ c.batch, r.txId = c.txId := by
  have hbatch : c.batch ≠ [] := by
    rw [batch, Record.sealBatch_eq_mapIdx]
    exact fun hnil => h (List.mapIdx_eq_nil_iff.mp hnil)
  obtain ⟨r, hr⟩ := List.exists_mem_of_ne_nil _ hbatch
  exact ⟨r, hr, txId_of_mem_batch hr⟩

namespace Session

open Database

variable {α : Type} {path : String} {place : Location} {rs : List Record} {index : Index} {s : Session}

/-! ## Numbers of a run -/

/-- What is submitted after records: all of it succeeds, under ids that ascend from theirs on. -/
structure Ascends (rs : List Record) (ts : List Submission) : Prop where
  succeed : ∀ t ∈ ts, t.outcome = .ok ()
  above : ∀ t ∈ ts, (Scan.after rs).lastTxId < t.txId
  ascending : ts.Pairwise fun t u => t.txId < u.txId

/-- Whether the next ids of a session are above those of the records of its log. -/
structure Ahead (rs : List Record) (s : Session) : Prop where
  last : (Scan.after rs).lastTxId.toNat < maxTxId
  next : ∀ db, s.db = some db → (Scan.after rs).lastTxId < db.nextTxId

theorem Ahead.of_closed (h : Ahead rs s) {s' : Session} (hdb : s'.db = none) : Ahead rs s' :=
  ⟨h.last, fun db hopen => by rw [hdb] at hopen; cases hopen⟩

theorem ascends_nil (rs : List Record) : Ascends rs [] :=
  ⟨by simp, by simp, .nil⟩

/-- Submissions that have succeeded are in the log, and what comes after the log comes after them. -/
theorem Ascends.append {ts us : List Submission} (h : Ascends rs ts)
    (hpending : ∀ c ∈ ts.filterMap Submission.commit?, c.pending ≠ [])
    (h' : Ascends (rs ++ Commit.records (ts.filterMap Submission.commit?)) us) : Ascends rs (ts ++ us) := by
  have hlogged (t : Submission) (ht : t ∈ ts) :
      t.txId.toNat ≤ (Scan.after (rs ++ Commit.records (ts.filterMap Submission.commit?))).lastTxId.toNat := by
    have hcommit : t.commit? = some ⟨t.txId, t.pending, t.index⟩ := by
      rw [Submission.commit?, h.succeed t ht]
    have hmem := List.mem_filterMap.mpr ⟨t, ht, hcommit⟩
    obtain ⟨r, hr, hid⟩ := Commit.exists_mem_batch (hpending _ hmem)
    have hrecord := List.mem_append_right rs (List.mem_flatMap.mpr ⟨_, hmem, hr⟩)
    rw [show t.txId = r.txId from hid.symm]
    exact Scan.le_lastTxId_of_mem hrecord
  have hle : (Scan.after rs).lastTxId.toNat ≤
      (Scan.after (rs ++ Commit.records (ts.filterMap Submission.commit?))).lastTxId.toNat := by
    rw [Scan.after_append]
    exact Scan.le_lastTxId_steps _ _
  refine ⟨List.forall_mem_append.mpr ⟨h.succeed, h'.succeed⟩,
    List.forall_mem_append.mpr ⟨h.above, fun u hu => ?_⟩,
    List.pairwise_append.mpr ⟨h.ascending, h'.ascending, fun t ht u hu => ?_⟩⟩
  · have habove := UInt64.lt_iff_toNat_lt.mp (h'.above u hu)
    rw [UInt64.lt_iff_toNat_lt]
    omega
  · have habove := UInt64.lt_iff_toNat_lt.mp (h'.above u hu)
    have ht := hlogged t ht
    rw [UInt64.lt_iff_toNat_lt]
    omega

/-- Work on the open database takes the next ids. -/
theorem Ahead.of_accepted (h : Ahead rs s) {db db' : Database} {machine : Machine} {ts : List Submission}
    (hdb : s.db = some db) (hready : Ready ⟨db, s.machine⟩)
    (haccepted : Accepted ⟨db, s.machine⟩ ts ⟨db', machine⟩) (hids : ∀ t ∈ ts, t.txId.toNat < maxTxId)
    {s' : Session} (hdb' : s'.db = some db') :
    Ascends rs ts ∧ Ahead (rs ++ Commit.records (ts.filterMap Submission.commit?)) s' := by
  have hnext := UInt64.lt_iff_toNat_lt.mp (h.next db hdb)
  obtain ⟨hstop, hbounds⟩ := haccepted.numbered.bounds hids
  have hrecords (bound : Nat) (hlast : (Scan.after rs).lastTxId.toNat < bound)
      (hbound : ∀ t ∈ ts, t.txId.toNat < bound) :
      (Scan.after (rs ++ Commit.records (ts.filterMap Submission.commit?))).lastTxId.toNat < bound := by
    rw [Scan.after_append]
    refine Scan.lastTxId_steps_lt _ _ _ hlast fun r hr => ?_
    obtain ⟨c, hc, hr⟩ := List.mem_flatMap.mp hr
    obtain ⟨t, ht, hcommit⟩ := List.mem_filterMap.mp hc
    have hid : c.txId = t.txId := by
      rw [Submission.commit?] at hcommit
      split at hcommit <;> cases hcommit
      rfl
    rw [Commit.txId_of_mem_batch hr, hid]
    exact hbound t ht
  refine ⟨⟨(haccepted.succeed hready).2, fun t ht => ?_, haccepted.numbered.ascending hids⟩, ?_, ?_⟩
  · have hlow : db.nextTxId.toNat ≤ t.txId.toNat := (hbounds t ht).1
    rw [UInt64.lt_iff_toNat_lt]
    omega
  · exact hrecords maxTxId h.last hids
  · intro db'' hopen
    rw [hdb'] at hopen
    cases hopen
    have hlow : db.nextTxId.toNat ≤ db'.nextTxId.toNat := hstop
    rw [UInt64.lt_iff_toNat_lt]
    exact hrecords _ (by omega) fun t ht => (hbounds t ht).2

/-- One action. -/
theorem ascends_act (action : Action α) (h : Backed path place rs index s) (hahead : Ahead rs s)
    (hstays : action.StaysOn path) (hids : ∀ t ∈ action.submissions s, t.txId.toNat < maxTxId) :
    Ascends rs (action.submissions s) ∧
      Ahead (rs ++ Commit.records (action.commits s)) (act action s).2 := by
  rw [← action.filterMap_submissions]
  by_cases hkeeps : action.KeepsOpen
  · cases hdb : s.db with
    | none =>
      obtain ⟨hclosed, hnone, -⟩ := act_of_closed action hkeeps hdb
      rw [hnone, List.filterMap_nil, Commit.records_nil, List.append_nil]
      exact ⟨ascends_nil rs, hahead.of_closed hclosed⟩
    | some db =>
      obtain ⟨db', hdb', haccepted⟩ :=
        tracks_act tracks_accepted action (fun _ => accepted_sync) hkeeps h.sound hdb
      exact hahead.of_accepted hdb (h.running db hdb).1.ready haccepted hids hdb'
  · have hnone : action.submissions s = [] := by
      by_contra hsubmits
      exact hkeeps (action.keepsOpen_of_submissions hsubmits)
    rw [hnone, List.filterMap_nil, Commit.records_nil, List.append_nil]
    refine ⟨ascends_nil rs, ?_⟩
    cases action with
    | close =>
      obtain ⟨env, hclose⟩ := close_eq s
      rw [act, hclose]
      exact hahead.of_closed rfl
    | reopen config =>
      -- The database that is opened goes on above all ids of the log.
      obtain ⟨db, machine, hreopen, hopened, -⟩ := h.reopened hstays.1 hstays.2
      rw [act, withoutValue, hreopen]
      refine ⟨hahead.last, fun db' hdb' => ?_⟩
      cases hdb'
      have hnext : db.nextTxId = (Scan.after (rs ++ [])).lastTxId + 1 := hopened.nextTxId_eq
      have hsucc := toNat_succ hahead.last
      rw [List.append_nil] at hnext
      rw [UInt64.lt_iff_toNat_lt, hnext]
      omega
    | begin name writable => exact absurd trivial hkeeps
    | drop name => exact absurd trivial hkeeps
    | use name script => exact absurd trivial hkeeps
    | update script => exact absurd trivial hkeeps
    | view script => exact absurd trivial hkeeps
    | sync => exact absurd trivial hkeeps

/-- A run: all its commits succeed, and their ids ascend, whatever is reopened in between. -/
theorem ascends_run (actions : List (Action α)) (h : Backed path place rs index s) (hahead : Ahead rs s)
    (hstays : ∀ action ∈ actions, action.StaysOn path)
    (hadmissible : Commit.Admissible rs (commits actions s))
    (hids : ∀ t ∈ submissions actions s, t.txId.toNat < maxTxId) :
    Ascends rs (submissions actions s) ∧
      Ahead (rs ++ Commit.records (commits actions s)) (run actions s).2 := by
  induction actions generalizing s rs index with
  | nil =>
    rw [commits, Commit.records_nil, List.append_nil]
    exact ⟨ascends_nil rs, hahead⟩
  | cons action actions ih =>
    have hstaysNow := hstays action (by simp)
    obtain ⟨hfirst, hmiddle⟩ := ascends_act action h hahead hstaysNow
      fun t ht => hids t (List.mem_append_left _ ht)
    obtain ⟨⟨middle, hbacked, -⟩, hseparate⟩ := advances_act action h hstaysNow hadmissible.left
    obtain ⟨hrest, hlast⟩ := ih hbacked hmiddle (fun later hl => hstays later (by simp [hl]))
      (hadmissible.right hseparate) fun t ht => hids t (List.mem_append_right _ ht)
    rw [← action.filterMap_submissions] at hseparate hrest
    refine ⟨hfirst.append (fun c hc => (hseparate c hc).1) hrest, ?_⟩
    rw [commits, Commit.records_append, ← List.append_assoc]
    exact hlast

end Session

end DurableLists

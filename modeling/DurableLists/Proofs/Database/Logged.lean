import DurableLists.Proofs.Database.Backed
import DurableLists.Proofs.Log.Recorded
import DurableLists.Proofs.Log.Torn
import DurableLists.Proofs.Session.Tracks

/-!
# Databases on a log that may fail

However the file of a log answers, the log holds records that have led to the committed index and, if a batch was
refused, a front of that batch (`Database.Logged`). A sync and a commit keep this, failing or not, and so does whatever
goes on between two openings (`tracks_logged`). A database that is let go leaves such a log on the disk
(`Logged.release`), and opening one again gives a database on such a log, or fails and leaves one
(`open_of_keeps`).
-/

set_option autoImplicit false

namespace DurableLists

/-- A log on a disk: the frames of records that have led to an index, and a front of the frames of one more batch. -/
def Disk.Keeps (d : Disk) (path : String) (place : Location) : Prop :=
  ∃ (index : Index) (rs batch : List Record) (front : Bytes), index.Recorded rs ∧ index.Admits batch ∧
    front <+: Frame.encodeAll batch ∧ d.Contains path place (Frame.encodeAll rs ++ front)

namespace Database

/-- A running database whose log holds records that have led to its index, and some of one more batch, which the
writer was refused and is latched for. -/
structure LoggedAs (path : String) (place : Location) (rs batch : List Record) (writer : Writer) (r : Running) :
    Prop where
  log : r.db.log = some writer
  recorded : r.db.index.Recorded rs
  admits : r.db.index.Admits batch
  torn : Writer.State.Torn ⟨writer, r.machine⟩ path place (Frame.encodeAll rs) (Frame.encodeAll batch)
  none_of_open : writer.readOnly = false → batch = []

def Logged (path : String) (place : Location) (r : Running) : Prop :=
  ∃ rs batch writer, LoggedAs path place rs batch writer r

variable {path : String} {place : Location} {r before after : Running}

/-! ## Between two openings -/

theorem Logged.keeps (h : Logged path place r) : r.machine.disk.Keeps path place := by
  obtain ⟨rs, batch, writer, h⟩ := h
  obtain ⟨front, hfile, hfront, -⟩ := h.torn.file
  exact ⟨r.db.index, rs, batch, front, h.recorded, h.admits, hfront, hfile⟩

/-- When the database is let go, the file may take more of the batch that was refused. -/
theorem Logged.release (h : Logged path place r) : (r.db.release r.machine).disk.Keeps path place := by
  obtain ⟨rs, batch, writer, h⟩ := h
  obtain ⟨front, hfile, hfront, -⟩ := h.torn.flush.file
  simp only [Database.release, h.log]
  exact ⟨r.db.index, rs, batch, front, h.recorded, h.admits, hfront, hfile⟩

theorem Logged.of_eq (h : Logged path place before) (hdb : after.db = before.db)
    (hdisk : after.machine.disk = before.machine.disk) : Logged path place after := by
  obtain ⟨rs, batch, writer, h⟩ := h
  refine ⟨rs, batch, writer, ?_, ?_, ?_, h.torn.of_eq rfl rfl hdisk, h.none_of_open⟩
  · rw [hdb, h.log]
  · rw [hdb]
    exact h.recorded
  · rw [hdb]
    exact h.admits

theorem Logged.sync (h : Logged path place r) : Logged path place (Database.sync.run r).2 := by
  obtain ⟨rs, batch, writer, h⟩ := h
  have hlatch := Writer.readOnly_sync (s := ⟨writer, r.machine⟩)
  simp only [Database.sync, onLog, Attempt.run_ofFn, h.log]
  refine ⟨rs, batch, _, rfl, h.recorded, h.admits, h.torn.sync, fun hopen => h.none_of_open ?_⟩
  rw [← Bool.not_eq_true] at hopen ⊢
  exact fun hreadOnly => hopen (hlatch hreadOnly)

/-- One commit, by what its append brings. -/
theorem Logged.commit {h : Handle} {draft : Draft} (hlogged : Logged path place h.running)
    (htx : h.tx = .writing draft) (hpending : draft.pending ≠ []) (hsound : h.tx.Sound h.db.index)
    (hfits : ∀ r ∈ draft.pending, Frame.Fits r) : Logged path place (Handle.commit.run h).2.running := by
  obtain ⟨rs, batch, writer, hlogged⟩ := hlogged
  have hlog : h.db.log = some writer := hlogged.log
  rw [htx] at hsound
  obtain ⟨hjustified, hreplay⟩ := hsound fun r hr => (hfits r hr).sized
  have hadmits : h.db.index.Admits (Record.sealBatch h.db.nextTxId draft.pending) :=
    ⟨Or.inr ⟨_, Record.isBatch_sealBatch _ _ hpending⟩, Record.fits_sealBatch_iff.mpr hfits,
      (Index.Justifies.sealBatch_iff _ _ _).mpr hjustified⟩
  cases hsubmit : h.submit draft with
  | mk outcome after =>
    obtain ⟨hnone, -, -⟩ | ⟨writer', s, hlog', hrun, rfl⟩ := of_run_onLog hsubmit
    · rw [hlog] at hnone
      cases hnone
    · rw [hlog] at hlog'
      cases hlog'
      cases hopen : writer.readOnly with
      | true =>
        -- The writer refuses the batch and stays as it is.
        rw [Writer.append_of_readOnly hopen] at hrun
        cases hrun
        obtain ⟨env, hcommit⟩ := Handle.run_commit_of_submit_error htx hpending hsubmit
        rw [hcommit]
        exact ⟨rs, batch, writer, rfl, hlogged.recorded, hlogged.admits, hlogged.torn.of_eq rfl rfl rfl,
          hlogged.none_of_open⟩
      | false =>
        have htorn := hlogged.torn
        rw [hlogged.none_of_open hopen] at htorn
        obtain ⟨hfront, hwhole⟩ := htorn.append hopen hrun
        cases outcome with
        | error e =>
          have hlatched := Writer.of_append_error hrun
          obtain ⟨env, hcommit⟩ := Handle.run_commit_of_submit_error htx hpending hsubmit
          rw [hcommit]
          refine ⟨rs, _, s.writer, rfl, hlogged.recorded, hadmits, hfront.of_eq rfl rfl rfl, fun hstill => ?_⟩
          rw [hlatched] at hstill
          cases hstill
        | ok _ =>
          obtain ⟨env, hcommit⟩ := Handle.run_commit_of_submit_ok htx hpending hsubmit
          have hnext : (installAll h.db.index draft.working).Recorded
              (rs ++ Record.sealBatch h.db.nextTxId draft.pending) := by
            refine hlogged.recorded.append hadmits ?_
            rw [Index.replay_sealBatch]
            exact hreplay
          have hlast := hwhole rfl
          rw [← Frame.encodeAll_append] at hlast
          rw [hcommit]
          exact ⟨_, [], s.writer, rfl, hnext, Index.admits_nil, hlast.of_eq rfl rfl rfl, fun _ => rfl⟩

/-- Whatever is submitted in between, if its records fit. -/
theorem tracks_logged (path : String) (place : Location) : Tracks fun before ts after =>
    (∀ t ∈ ts, ∀ r ∈ t.pending, Frame.Fits r) → Logged path place before → Logged path place after where
  quiet hdb hdisk _ h := h.of_eq hdb hdisk
  trans hfirst hsecond hfits h :=
    hsecond (fun t ht => hfits t (List.mem_append_right _ ht))
      (hfirst (fun t ht => hfits t (List.mem_append_left _ ht)) h)
  commit htx hpending hsound hfits h := by
    rw [Handle.submissions_writing htx hpending] at hfits
    exact h.commit htx hpending hsound (hfits _ (List.mem_singleton.mpr rfl))

/-! ## Opening again -/

variable {m : Machine} {config : Config}

theorem logged_of_ready {index : Index} {rs : List Record} {writer : Writer} (hlog : r.db.log = some writer)
    (hready : writer.Ready place) (hindex : r.db.index = index) (hrecorded : index.Recorded rs)
    (hfile : r.machine.disk.Contains path place (Frame.encodeAll rs)) : Logged path place r := by
  subst hindex
  exact ⟨rs, [], writer, hlog, hrecorded, Index.admits_nil,
    Writer.Ready.torn (s := ⟨writer, r.machine⟩) hready hfile, fun _ => rfl⟩

/-- A log that is kept on the disk is opened, unless the sync after the cut is refused; the file is cut in either
case. -/
theorem open_of_keeps (henabled : config.persistence.enabled = true)
    (h : m.disk.Keeps config.persistence.logPath place) :
    (∃ db m', (Database.open config).run m = (.ok db, m') ∧ Logged config.persistence.logPath place ⟨db, m'⟩) ∨
      ∃ e m', (Database.open config).run m = (.error e, m') ∧ m'.disk.Keeps config.persistence.logPath place := by
  obtain ⟨index, rs, batch, front, hrecorded, hadmits, hfront, file, hfind, hcontent⟩ := h
  obtain ⟨kept, dropped, tail, stop, hsplits, hstop, -⟩ := hrecorded.splits_front hadmits hfront
  rw [← hcontent] at hsplits
  obtain ⟨outcome, machine, hload, hcut, hend⟩ := LoadedLog.load_ends hfind hsplits hstop.replayed_transactions
  obtain ⟨asked, hleft⟩ := hcut.find
  have hfile : machine.disk.Contains config.persistence.logPath place (Frame.encodeAll kept) := ⟨_, hleft, rfl⟩
  rcases hend with rfl | ⟨cause, -, -, rfl⟩
  · left
    obtain ⟨writer, env, hwriter, hready⟩ := Writer.open_of_contains hfile
    have hlog := run_openLog hload
    rw [hwriter] at hlog
    exact ⟨_, _, run_open henabled hlog, logged_of_ready rfl hready rfl hstop hfile⟩
  · right
    refine ⟨_, _, run_open_error henabled (run_openLog_error hload), stop, kept, [], [], hstop, Index.admits_nil,
      List.prefix_rfl, ?_⟩
    rw [List.append_nil]
    exact hfile

/-- A log that is absent or empty is opened as one that has led to the empty index. -/
theorem logged_of_open (henabled : config.persistence.enabled = true)
    (hmeets : m.disk.Meets config.persistence.logPath []) {db : Database} {m' : Machine}
    (h : (Database.open config).run m = (.ok db, m')) :
    ∃ place, Logged config.persistence.logPath place ⟨db, m'⟩ := by
  rcases hmeets with ⟨place, hfile⟩ | ⟨-, hfind, hmissing⟩
  · have hkeeps : m.disk.Keeps config.persistence.logPath place :=
      ⟨∅, [], [], [], Index.recorded_nil, Index.admits_nil, List.prefix_rfl, hfile⟩
    obtain ⟨db', m'', hopen, hlogged⟩ | ⟨e, m'', hopen, -⟩ := open_of_keeps henabled hkeeps
    · rw [hopen] at h
      cases h
      exact ⟨place, hlogged⟩
    · rw [hopen] at h
      cases h
  · obtain ⟨place, writer, hcreated, hready, rfl⟩ := created_of_open henabled hfind hmissing h
    exact ⟨place, logged_of_ready rfl hready rfl Index.recorded_nil ⟨_, hcreated, rfl⟩⟩

end Database

end DurableLists

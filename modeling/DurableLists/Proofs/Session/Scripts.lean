import DurableLists.Proofs.Session.Commits

/-!
# Scripts on a database that is backed by its log

Every use of a transaction leaves the database backed by its log, which has grown by the batches of the
commits that the use makes (`Use.advances_perform`). By induction so does a script
(`Script.advances_run`), and so do a view and an update, in which a script has a transaction of its own
(`Session.advances_view`, `Session.advances_update`).
-/

set_option autoImplicit false

namespace DurableLists

namespace Database

/-! ## Advances -/

/-- From a database backed by the records `rs` of its log, commits lead to one that is backed by those and
the batches of the commits. -/
structure Advances (path : String) (place : Location) (rs : List Record) (before : Running)
    (commits : List Commit) (after : Running) : Prop where
  backed : Backed path place (rs ++ Commit.records commits) after
  separate : Commit.Separate rs commits
  chained : Commit.Chained before.db.index commits after.db.index

namespace Advances

variable {path : String} {place : Location} {rs : List Record} {before middle after : Running}
  {cs ds : List Commit}

theorem refl (h : Backed path place rs after) (hindex : after.db.index = before.db.index) :
    Advances path place rs before [] after := by
  refine ⟨?_, fun c hc => absurd hc (by simp), hindex⟩
  rw [Commit.records_nil, List.append_nil]
  exact h

theorem trans (h : Advances path place rs before cs middle)
    (h' : Advances path place (rs ++ Commit.records cs) middle ds after) :
    Advances path place rs before (cs ++ ds) after := by
  refine ⟨?_, h.separate.append h'.separate, h.chained.append h'.chained⟩
  rw [Commit.records_append, ← List.append_assoc]
  exact h'.backed

end Advances

/-! ## Handles -/

def Handle.running (h : Handle) : Running := ⟨h.db, h.machine⟩

/-- A handle whose database is backed by its log, and whose draft is faithful. -/
structure Handle.Backed (path : String) (place : Location) (rs : List Record) (h : Handle) : Prop where
  running : Database.Backed path place rs h.running
  sound : h.tx.Sound h.db.index

namespace Handle

variable {path : String} {place : Location} {rs : List Record} {h before after : Handle} {cs : List Commit}

theorem Backed.advances_nil (hbefore : Handle.Backed path place rs before)
    (hdb : after.db = before.db) (hdisk : after.machine.disk = before.machine.disk) :
    Advances path place rs before.running [] after.running := by
  obtain ⟨hstored, hlog, hfresh⟩ := hbefore.running
  refine Advances.refl ⟨?_, ?_, ?_⟩ ?_
  · change Stored after.machine.disk path place rs after.db.index
    rw [hdisk, hdb]
    exact hstored
  · change ∃ writer, after.db.log = some writer ∧ writer.Ready place
    rw [hdb]
    exact hlog
  · change Scan.IdsBelow rs after.db.nextTxId.toNat
    rw [hdb]
    exact hfresh
  · change after.db.index = before.db.index
    rw [hdb]

/-! ## Committing -/

theorem run_commit_writing (hbacked : Database.Backed path place rs h.running) {draft : Draft}
    (htx : h.tx = .writing draft) (hpending : draft.pending ≠ []) :
    ∃ writer machine, commit.run h = (.ok (), ⟨.closed, ⟨h.db.config,
        installAll h.db.index draft.working, some writer, h.db.nextTxId + 1⟩, machine⟩) ∧
      writer.Ready place ∧ machine.disk.Holds path place
        (Frame.encodeAll (rs ++ Record.sealBatch h.db.nextTxId draft.pending)) := by
  obtain ⟨writer, machine, hcommit, hready, hholds⟩ := hbacked.run_commitDraft draft
  refine ⟨writer, machine.report (.committed h.db.nextTxId draft.pending.length), ?_, hready, hholds⟩
  have hdatabase : (onDatabase (commitDraft draft)).run { h with tx := .closed } =
      (.ok h.db.nextTxId, ⟨.closed, ⟨h.db.config, installAll h.db.index draft.working, some writer,
        h.db.nextTxId + 1⟩, machine⟩) := by
    rw [onDatabase, Attempt.run_onPart, show (commitDraft draft).run ⟨h.db, h.machine⟩ = _ from hcommit]
    rfl
  rw [commit, Attempt.run_bind_ok (run_close_writing htx)]
  simp only [List.isEmpty_iff, hpending, if_false]
  rw [Attempt.run_bind_ok hdatabase]
  rfl

theorem run_commit_idle (hidle : h.tx.pending = []) :
    (commit.run h).2 = { h with tx := .closed } ∧ h.commits = [] := by
  obtain ⟨tx, db, machine⟩ := h
  cases tx with
  | reading => exact ⟨rfl, rfl⟩
  | closed => exact ⟨rfl, rfl⟩
  | writing draft =>
    have hpending : draft.pending = [] := hidle
    have hrun : commit.run ⟨.writing draft, db, machine⟩ = (.ok (), ⟨.closed, db, machine⟩) := by
      rw [commit, Attempt.run_bind_ok (run_close_writing rfl)]
      simp only [hpending, List.isEmpty_nil, if_true, Attempt.run_pure]
    rw [hrun]
    refine ⟨rfl, ?_⟩
    simp only [commits, hrun, hpending, List.isEmpty_nil, if_true]

theorem advances_commit (hh : Handle.Backed path place rs h)
    (hadmissible : Commit.Admissible rs h.commits) :
    Advances path place rs h.running h.commits (commit.run h).2.running := by
  by_cases hidle : h.tx.pending = []
  · obtain ⟨hrun, hcommits⟩ := run_commit_idle hidle
    rw [hrun, hcommits]
    exact hh.advances_nil rfl rfl
  · cases htx : h.tx with
    | reading =>
      rw [htx] at hidle
      exact absurd rfl hidle
    | closed =>
      rw [htx] at hidle
      exact absurd rfl hidle
    | writing draft =>
      rw [htx] at hidle
      have hpending : draft.pending ≠ [] := hidle
      obtain ⟨writer, machine, hrun, hready, hholds⟩ := run_commit_writing hh.running htx hpending
      have hcommits : h.commits =
          [⟨h.db.nextTxId, draft.pending, installAll h.db.index draft.working⟩] := by
        simp only [commits, htx, hrun, List.isEmpty_iff, hpending, if_false]
      have hsound := hh.sound
      rw [htx] at hsound
      rw [hcommits] at hadmissible ⊢
      rw [hrun]
      have hfits := hadmissible.fits _ (List.mem_singleton.mpr rfl)
      have hid := hadmissible.ids.imp_right fun hids => hids _ (List.mem_singleton.mpr rfl)
      have hrecords : Commit.records [⟨h.db.nextTxId, draft.pending,
          installAll h.db.index draft.working⟩] = Record.sealBatch h.db.nextTxId draft.pending :=
        List.flatMap_singleton ..
      refine ⟨?_, ?_, ?_, rfl⟩
      · rw [hrecords]
        exact hh.running.backed_commitDraft hpending hsound hfits hid hready hholds
      · intro c hc
        rw [List.mem_singleton.mp hc]
        exact ⟨hpending, hh.running.fresh.fresh⟩
      · change (Index.replay (Record.sealBatch h.db.nextTxId draft.pending)).run h.db.index = _
        rw [Index.replay_sealBatch]
        exact (hsound fun r hr => (hfits r hr).sized).2

end Handle

end Database

/-! ## Uses and scripts -/

open Database

variable {α : Type} {path : String} {place : Location} {rs : List Record}

theorem Use.advances_perform (u : Use) {h : Handle} (hh : Handle.Backed path place rs h)
    (hadmissible : Commit.Admissible rs (u.commits h)) :
    Database.Advances path place rs h.running (u.commits h) (u.perform.run h).2.running := by
  cases u with
  | list bucket request => exact hh.advances_nil rfl rfl
  | pending => exact hh.advances_nil rfl rfl
  | isWritable => exact hh.advances_nil rfl rfl
  | isClosed => exact hh.advances_nil rfl rfl
  | commit =>
    have hcommit := Handle.advances_commit hh hadmissible
    rw [Use.perform, Attempt.state_run_bind_pure]
    exact hcommit
  | rollback =>
    obtain ⟨trace, hrun⟩ := Handle.run_rollback (h := h)
    rw [Use.perform, Attempt.state_run_bind_pure, hrun]
    exact hh.advances_nil rfl rfl

/-- A script advances a database by its commits, whatever its uses bring. -/
theorem Script.advances_run (script : Script α) {h : Handle} (hh : Handle.Backed path place rs h)
    (hadmissible : Commit.Admissible rs (script.commits h)) :
    Database.Advances path place rs h.running (script.commits h) (script.run.run h).2.running := by
  induction script generalizing h rs with
  | done outcome => exact hh.advances_nil rfl rfl
  | use u next ih =>
    have hu := u.advances_perform hh hadmissible.left
    have hbacked : Handle.Backed path place (rs ++ Commit.records (u.commits h)) (u.perform.run h).2 :=
      ⟨hu.backed, u.sound_perform hh.sound⟩
    exact hu.trans (ih (u.perform.run h).1 hbacked (hadmissible.right hu.separate))

/-! ## Updates and views -/

namespace Session

theorem handle_backed_begin {db : Database} {machine : Machine}
    (h : Database.Backed path place rs ⟨db, machine⟩) (writable : Bool) :
    Handle.Backed path place rs ⟨Tx.begin writable, db, machine⟩ :=
  ⟨h, Tx.sound_begin db.index writable⟩

theorem advances_env {before : Running} {cs : List Commit} {after : Handle}
    (h : Database.Advances path place rs before cs after.running) (env : Env) :
    Database.Advances path place rs before cs ⟨after.db, { after.machine with env }⟩ :=
  ⟨h.backed.of_env env, h.separate, h.chained⟩

theorem advances_view (script : Script α) {db : Database} {machine : Machine}
    (h : Database.Backed path place rs ⟨db, machine⟩)
    (hadmissible : Commit.Admissible rs (scriptCommits false script db machine)) :
    Database.Advances path place rs ⟨db, machine⟩ (scriptCommits false script db machine)
      ((Database.view script.run).run ⟨db, machine⟩).2 := by
  obtain ⟨trace, hwithin⟩ := run_within false script.run ⟨db, machine⟩
  rw [Database.view, hwithin]
  exact advances_env (script.advances_run (handle_backed_begin h false) hadmissible) _

theorem advances_update (script : Script α) {db : Database} {machine : Machine}
    (h : Database.Backed path place rs ⟨db, machine⟩)
    (hadmissible : Commit.Admissible rs (updateCommits script db machine)) :
    Database.Advances path place rs ⟨db, machine⟩ (updateCommits script db machine)
      ((Database.update script.run).run ⟨db, machine⟩).2 := by
  obtain ⟨trace, hwithin⟩ := run_within true (do
    let a ← script.run
    Handle.commit
    return a) ⟨db, machine⟩
  rw [Database.update, hwithin]
  refine Session.advances_env ?_ _
  rw [updateCommits] at hadmissible ⊢
  have hscript := script.advances_run (handle_backed_begin h true) hadmissible.left
  have hsound := script.sound_run (handle_backed_begin h true).sound
  rw [Attempt.run_bind]
  revert hsound hscript hadmissible
  rcases script.run.run ⟨Tx.begin true, db, machine⟩ with ⟨cause | a, after⟩
  · intro _ hscript _
    simp only [List.append_nil]
    exact hscript
  · intro hadmissible hscript hsound
    have hcommit := Handle.advances_commit ⟨hscript.backed, hsound⟩ (hadmissible.right hscript.separate)
    simp only [Attempt.state_run_bind_pure]
    exact hscript.trans hcommit

end Session

end DurableLists

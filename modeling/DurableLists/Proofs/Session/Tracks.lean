import DurableLists.Proofs.Session.Submissions

/-!
# Relations along what is submitted

`Tracks` is the induction over a run that opens no database: a relation between the database before and after,
along what is submitted in between, that holds where nothing is submitted and of one commit, and that composes,
holds of every script (`Script.tracks_run`), every action (`Session.tracks_act`) and every run
(`Session.tracks_run`).
-/

set_option autoImplicit false

namespace DurableLists

open Database

namespace Database

/-- A relation between the database before and after, along what is submitted in between, that holds where
nothing is submitted and of one commit, and that composes. -/
structure Tracks (R : Running → List Submission → Running → Prop) : Prop where
  quiet : ∀ {before after : Running}, after.db = before.db → after.machine.disk = before.machine.disk →
    R before [] after
  trans : ∀ {before middle after : Running} {first second : List Submission}, R before first middle →
    R middle second after → R before (first ++ second) after
  commit : ∀ {h : Handle} {draft : Draft}, h.tx = .writing draft → draft.pending ≠ [] →
    h.tx.Sound h.db.index → R h.running h.submissions (Handle.commit.run h).2.running

/-- What happens to the clock and the trace in the end makes no difference. -/
theorem Tracks.of_env {R : Running → List Submission → Running → Prop} (hR : Tracks R) {before : Running}
    {ts : List Submission} {after : Handle} (h : R before ts after.running) (env : Env) :
    R before ts ⟨after.db, { after.machine with env }⟩ := by
  have hquiet : R after.running [] ⟨after.db, { after.machine with env }⟩ := hR.quiet rfl rfl
  have hend := hR.trans h hquiet
  rw [List.append_nil] at hend
  exact hend

end Database

variable {α : Type} {R : Running → List Submission → Running → Prop} {h : Handle}

theorem Database.Handle.tracks_commit (hR : Tracks R) (hsound : h.tx.Sound h.db.index) :
    R h.running h.submissions (Handle.commit.run h).2.running := by
  by_cases hidle : h.tx.pending = []
  · rw [submissions_idle hidle, (run_commit_idle hidle).1]
    exact hR.quiet rfl rfl
  · obtain ⟨draft, htx⟩ := Tx.exists_writing hidle
    rw [htx] at hidle
    exact hR.commit htx hidle hsound

theorem Use.tracks_perform (hR : Tracks R) (u : Use) (hsound : h.tx.Sound h.db.index) :
    R h.running (u.submissions h) (u.perform.run h).2.running := by
  cases u with
  | list bucket request => exact hR.quiet rfl rfl
  | pending => exact hR.quiet rfl rfl
  | isWritable => exact hR.quiet rfl rfl
  | isClosed => exact hR.quiet rfl rfl
  | commit =>
    rw [Use.perform, Attempt.state_run_bind_pure]
    exact Handle.tracks_commit hR hsound
  | rollback =>
    obtain ⟨trace, hrun⟩ := Handle.run_rollback (h := h)
    rw [Use.perform, Attempt.state_run_bind_pure, hrun]
    exact hR.quiet rfl rfl

theorem Script.tracks_run (hR : Tracks R) (script : Script α) (hsound : h.tx.Sound h.db.index) :
    R h.running (script.submissions h) (script.run.run h).2.running := by
  induction script generalizing h with
  | done outcome => exact hR.quiet rfl rfl
  | use u next ih =>
    have hu := u.tracks_perform hR hsound
    exact hR.trans hu (ih (u.perform.run h).1 (u.sound_perform hsound))

namespace Session

variable {s : Session} {db : Database}

theorem tracks_view (hR : Tracks R) (script : Script α) (r : Running) :
    R r (script.submissions ⟨Tx.begin false, r.db, r.machine⟩) ((Database.view script.run).run r).2 := by
  obtain ⟨trace, hwithin⟩ := run_within false script.run r
  rw [Database.view, hwithin]
  exact hR.of_env (script.tracks_run hR (h := ⟨Tx.begin false, r.db, r.machine⟩) trivial) _

theorem tracks_update (hR : Tracks R) (script : Script α) (r : Running) :
    R r (updateSubmissions script r.db r.machine) ((Database.update script.run).run r).2 := by
  obtain ⟨trace, hwithin⟩ := run_within true (do
    let a ← script.run
    Handle.commit
    return a) r
  rw [Database.update, hwithin]
  have hbegin := Tx.sound_begin r.db.index true
  have hscript := script.tracks_run hR (h := ⟨Tx.begin true, r.db, r.machine⟩) hbegin
  have hsound := script.sound_run (h := ⟨Tx.begin true, r.db, r.machine⟩) hbegin
  refine hR.of_env ?_ _
  rw [updateSubmissions, Attempt.run_bind]
  revert hscript hsound
  rcases script.run.run ⟨Tx.begin true, r.db, r.machine⟩ with ⟨cause | a, after⟩
  · intro hscript _
    simp only [List.append_nil]
    exact hscript
  · intro hscript hsound
    simp only [Attempt.state_run_bind_pure]
    exact hR.trans hscript (Handle.tracks_commit hR hsound)

/-- Whether an action leaves the same database open. -/
def Action.KeepsOpen : Action α → Prop
  | .close | .reopen _ => False
  | .begin .. | .drop _ | .use .. | .update _ | .view _ | .sync => True

theorem Action.keepsOpen_of_submissions (action : Action α) (h : action.submissions s ≠ []) :
    action.KeepsOpen := by
  cases action with
  | close => exact absurd rfl h
  | reopen config => exact absurd rfl h
  | begin name writable => trivial
  | drop name => trivial
  | use name script => trivial
  | update script => trivial
  | view script => trivial
  | sync => trivial

/-- With no database open, such an action submits nothing and leaves the files as they are. -/
theorem act_of_closed (action : Action α) (hkeeps : action.KeepsOpen) (hdb : s.db = none) :
    (act action s).2.db = none ∧ action.submissions s = [] ∧
      (act action s).2.machine.disk = s.machine.disk := by
  cases action with
  | close => exact hkeeps.elim
  | reopen config => exact hkeeps.elim
  | begin name writable =>
    simp only [act, withoutValue, Session.begin, hdb, Option.isNone_none, if_true]
    exact ⟨trivial, rfl, trivial⟩
  | drop name =>
    obtain ⟨env, hdrop⟩ := dropTx_eq name s
    rw [act, hdrop]
    exact ⟨hdb, rfl, rfl⟩
  | use name script =>
    simp only [act, withValue, onTx, Action.submissions, hdb]
    exact ⟨trivial, trivial, trivial⟩
  | update script =>
    simp only [act, withValue, Session.update, onDatabase, Action.submissions, hdb]
    split <;> exact ⟨hdb, trivial, rfl⟩
  | view script =>
    simp only [act, withValue, Session.view, onDatabase, Action.submissions, hdb]
    exact ⟨trivial, trivial, trivial⟩
  | sync =>
    simp only [act, withoutValue, onDatabase, hdb]
    exact ⟨trivial, rfl, trivial⟩

/-- One action that leaves the database open. -/
theorem tracks_act (hR : Tracks R) (action : Action α)
    (hsync : action = .sync → ∀ r : Running, R r [] (Database.sync.run r).2) (hkeeps : action.KeepsOpen)
    (hs : s.Sound) (hdb : s.db = some db) :
    ∃ db', (act action s).2.db = some db' ∧
      R ⟨db, s.machine⟩ (action.submissions s) ⟨db', (act action s).2.machine⟩ := by
  cases action with
  | close => exact hkeeps.elim
  | reopen config => exact hkeeps.elim
  | drop name =>
    obtain ⟨env, hdrop⟩ := dropTx_eq name s
    rw [act, hdrop]
    exact ⟨db, hdb, hR.quiet rfl rfl⟩
  | begin name writable =>
    obtain ⟨env, hdrop⟩ := dropTx_eq name s
    simp only [act, withoutValue, Session.begin, hdb, Option.isNone_some, Bool.false_eq_true, if_false, hdrop]
    split
    · exact ⟨db, rfl, hR.quiet rfl rfl⟩
    · exact ⟨db, rfl, hR.quiet rfl rfl⟩
  | use name script =>
    cases htx : s.txs[name]? with
    | none =>
      simp only [act, withValue, onTx, Action.submissions, hdb, htx]
      exact ⟨db, rfl, hR.quiet rfl rfl⟩
    | some tx =>
      simp only [act, withValue, onTx, Action.submissions, hdb, htx]
      exact ⟨_, rfl, script.tracks_run hR (h := ⟨tx, db, s.machine⟩) (hs.drafts db name tx hdb htx)⟩
  | update script =>
    cases hwriting : s.isWriting with
    | true =>
      simp only [act, withValue, Session.update, Action.submissions, hdb, hwriting, if_true]
      exact ⟨db, rfl, hR.quiet rfl rfl⟩
    | false =>
      simp only [act, withValue, Session.update, onDatabase, Action.submissions, hdb, hwriting,
        Bool.false_eq_true, if_false]
      exact ⟨_, rfl, tracks_update hR script ⟨db, s.machine⟩⟩
  | view script =>
    simp only [act, withValue, Session.view, onDatabase, Action.submissions, hdb]
    exact ⟨_, rfl, tracks_view hR script ⟨db, s.machine⟩⟩
  | sync =>
    simp only [act, withoutValue, onDatabase, Action.submissions, hdb]
    exact ⟨_, rfl, hsync rfl ⟨db, s.machine⟩⟩

theorem tracks_run (hR : Tracks R) (hsync : ∀ r : Running, R r [] (Database.sync.run r).2)
    (actions : List (Action α)) (hkeeps : ∀ action ∈ actions, action.KeepsOpen) (hs : s.Sound)
    (hdb : s.db = some db) :
    ∃ db', (run actions s).2.db = some db' ∧
      R ⟨db, s.machine⟩ (submissions actions s) ⟨db', (run actions s).2.machine⟩ := by
  induction actions generalizing s db with
  | nil => exact ⟨db, hdb, hR.quiet rfl rfl⟩
  | cons action actions ih =>
    obtain ⟨middle, hmiddle, hfirst⟩ := tracks_act hR action (fun _ => hsync) (hkeeps action (by simp)) hs hdb
    obtain ⟨db', hdb', hrest⟩ := ih (fun later hl => hkeeps later (by simp [hl])) (sound_act action hs) hmiddle
    exact ⟨db', hdb', hR.trans hfirst hrest⟩

end Session

end DurableLists

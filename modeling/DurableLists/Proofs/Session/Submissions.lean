import DurableLists.Proofs.Session.Scripts

/-!
# What a run submits to the log

`Session.submissions` lists the commits of a run that have something to commit, whether or not they succeed, in
order and each with its outcome; those that succeed are the commits of the run (`Session.filterMap_submissions`).
A commit with something to commit ends as the append of its batch ends (`run_commit_of_submit_ok`,
`run_commit_of_submit_error`).

A transaction submits at most once, and then it is closed (`Script.of_submissions_ne_nil`); so an action submits at
most once, and after it no transaction writes (`Session.isWriting_act_of_submissions`).
-/

set_option autoImplicit false

namespace DurableLists

/-- A commit with something to commit, whether or not it has succeeded. -/
structure Submission where
  txId : UInt64
  /-- The staged records, in the order of their staging. -/
  pending : List Record
  outcome : Except Error Unit
  /-- The committed index right after. -/
  index : Index

/-- The commit that a submission is if it has succeeded. -/
def Submission.commit? (t : Submission) : Option Commit :=
  match t.outcome with
  | .ok () => some ⟨t.txId, t.pending, t.index⟩
  | .error _ => none

open Database

/-! ## Submissions of a transaction -/

/-- What committing a transaction submits. -/
def Database.Handle.submissions (h : Handle) : List Submission :=
  if h.tx.pending.isEmpty then []
  else [⟨h.db.nextTxId, h.tx.pending, (Handle.commit.run h).1, (Handle.commit.run h).2.db.index⟩]

def Use.submissions (h : Handle) : Use → List Submission
  | .commit => h.submissions
  | .list .. | .pending | .isWritable | .isClosed | .rollback => []

def Script.submissions {α : Type} : Script α → Handle → List Submission
  | .done _, _ => []
  | .use u next, h => u.submissions h ++ (next (u.perform.run h).1).submissions (u.perform.run h).2

namespace Session

variable {α : Type}

/-! ## Submissions of a session -/

/-- What an update submits: what the script does, and the commit at its end if the script succeeds. -/
def updateSubmissions (script : Script α) (db : Database) (machine : Machine) : List Submission :=
  let (outcome, h) := script.run.run ⟨Tx.begin true, db, machine⟩
  script.submissions ⟨Tx.begin true, db, machine⟩ ++
    match outcome with
    | .ok _ => h.submissions
    | .error _ => []

def Action.submissions (s : Session) : Action α → List Submission
  | .use name script =>
    match s.db, s.txs[name]? with
    | some db, some tx => script.submissions ⟨tx, db, s.machine⟩
    | _, _ => []
  | .update script =>
    match s.db with
    | some db => if s.isWriting then [] else updateSubmissions script db s.machine
    | none => []
  | .view script =>
    match s.db with
    | some db => script.submissions ⟨Tx.begin false, db, s.machine⟩
    | none => []
  | .begin .. | .drop _ | .sync | .close | .reopen _ => []

/-- What actions submit one after another. -/
def submissions : List (Action α) → Session → List Submission
  | [], _ => []
  | action :: actions, s => action.submissions s ++ submissions actions (act action s).2

end Session

/-! ## Submissions that succeed -/

theorem Tx.exists_writing {tx : Tx} (h : tx.pending ≠ []) : ∃ draft, tx = .writing draft := by
  cases tx with
  | writing draft => exact ⟨draft, rfl⟩
  | reading => exact absurd rfl h
  | closed => exact absurd rfl h

namespace Database.Handle

variable {h : Handle} {draft : Draft}

theorem submissions_writing (htx : h.tx = .writing draft) (hpending : draft.pending ≠ []) :
    h.submissions = [⟨h.db.nextTxId, draft.pending, (commit.run h).1, (commit.run h).2.db.index⟩] := by
  simp only [submissions, htx, Tx.pending, List.isEmpty_iff, hpending, if_false]

theorem submissions_idle (hidle : h.tx.pending = []) : h.submissions = [] := by
  simp only [submissions, hidle, List.isEmpty_nil, if_true]

theorem filterMap_submissions (h : Handle) : h.submissions.filterMap Submission.commit? = h.commits := by
  by_cases hidle : h.tx.pending = []
  · rw [submissions_idle hidle, (run_commit_idle hidle).2]
    rfl
  · obtain ⟨draft, htx⟩ := Tx.exists_writing hidle
    rw [htx] at hidle
    have hpending : draft.pending ≠ [] := hidle
    rw [submissions_writing htx hpending, commits, htx]
    rcases commit.run h with ⟨_ | _, after⟩
    · rfl
    · simp only [List.isEmpty_iff, hpending, if_false]
      rfl

end Database.Handle

theorem Use.filterMap_submissions (u : Use) (h : Handle) :
    (u.submissions h).filterMap Submission.commit? = u.commits h := by
  cases u with
  | commit => exact h.filterMap_submissions
  | list bucket request => rfl
  | pending => rfl
  | isWritable => rfl
  | isClosed => rfl
  | rollback => rfl

theorem Script.filterMap_submissions {α : Type} (script : Script α) (h : Handle) :
    (script.submissions h).filterMap Submission.commit? = script.commits h := by
  induction script generalizing h with
  | done outcome => rfl
  | use u next ih =>
    rw [Script.submissions, Script.commits, List.filterMap_append, u.filterMap_submissions, ih]

namespace Session

variable {α : Type}

theorem filterMap_updateSubmissions (script : Script α) (db : Database) (machine : Machine) :
    (updateSubmissions script db machine).filterMap Submission.commit? = updateCommits script db machine := by
  simp only [updateSubmissions, updateCommits, scriptCommits, List.filterMap_append,
    script.filterMap_submissions]
  rcases script.run.run ⟨Tx.begin true, db, machine⟩ with ⟨cause | a, after⟩
  · rfl
  · exact congrArg _ after.filterMap_submissions

theorem Action.filterMap_submissions (action : Action α) (s : Session) :
    (action.submissions s).filterMap Submission.commit? = action.commits s := by
  cases action with
  | use name script =>
    simp only [Action.submissions, Action.commits]
    cases s.db with
    | none => rfl
    | some db =>
      cases s.txs[name]? with
      | none => rfl
      | some tx => exact script.filterMap_submissions _
  | update script =>
    simp only [Action.submissions, Action.commits]
    cases s.db with
    | none => rfl
    | some db =>
      cases s.isWriting with
      | true => rfl
      | false => exact filterMap_updateSubmissions script db s.machine
  | view script =>
    simp only [Action.submissions, Action.commits]
    cases s.db with
    | none => rfl
    | some db => exact script.filterMap_submissions _
  | begin name writable => rfl
  | drop name => rfl
  | sync => rfl
  | close => rfl
  | reopen config => rfl

theorem filterMap_submissions (actions : List (Action α)) (s : Session) :
    (submissions actions s).filterMap Submission.commit? = commits actions s := by
  induction actions generalizing s with
  | nil => rfl
  | cons action actions ih =>
    rw [submissions, commits, List.filterMap_append, action.filterMap_submissions, ih]

end Session

/-! ## A transaction submits at most once -/

variable {α : Type} {h : Handle}

theorem Use.submissions_of_reads (u : Use) (hreads : h.tx.isWritable = false) : u.submissions h = [] := by
  have hidle : h.tx.pending = [] := by
    cases htx : h.tx with
    | writing draft =>
      rw [htx] at hreads
      cases hreads
    | reading => rfl
    | closed => rfl
  cases u with
  | commit => exact Handle.submissions_idle hidle
  | list bucket request => rfl
  | pending => rfl
  | isWritable => rfl
  | isClosed => rfl
  | rollback => rfl

theorem Script.submissions_of_reads (script : Script α) (hreads : h.tx.isWritable = false) :
    script.submissions h = [] := by
  induction script generalizing h with
  | done outcome => rfl
  | use u next ih =>
    have hstill := (u.db_perform hreads).2
    rw [submissions, u.submissions_of_reads hreads, ih _ hstill, List.append_nil]

/-- A use that submits something submits one thing, and closes the transaction. -/
theorem Use.of_submissions_ne_nil (u : Use) (hu : u.submissions h ≠ []) :
    (u.submissions h).length = 1 ∧ (u.perform.run h).2.tx.isWritable = false := by
  cases u with
  | commit =>
    have hpending : h.tx.pending ≠ [] := fun hidle => hu (Handle.submissions_idle hidle)
    refine ⟨?_, ?_⟩
    · obtain ⟨draft, htx⟩ := Tx.exists_writing hpending
      rw [htx] at hpending
      rw [submissions, Handle.submissions_writing htx hpending, List.length_singleton]
    · rw [Use.perform, Attempt.state_run_bind_pure, Handle.tx_commit]
      rfl
  | list bucket request => exact absurd rfl hu
  | pending => exact absurd rfl hu
  | isWritable => exact absurd rfl hu
  | isClosed => exact absurd rfl hu
  | rollback => exact absurd rfl hu

theorem Script.of_submissions_ne_nil (script : Script α) (hscript : script.submissions h ≠ []) :
    (script.submissions h).length = 1 ∧ h.tx.isWritable = true ∧
      (script.run.run h).2.tx.isWritable = false := by
  induction script generalizing h with
  | done outcome => exact absurd rfl hscript
  | use u next ih =>
    have hwrites : h.tx.isWritable = true := by
      by_contra hreads
      exact hscript ((Script.use u next).submissions_of_reads (Bool.eq_false_iff.mpr hreads))
    by_cases hu : u.submissions h = []
    · rw [submissions, hu, List.nil_append] at hscript ⊢
      obtain ⟨hlength, -, hclosed⟩ := ih (u.perform.run h).1 hscript
      exact ⟨hlength, hwrites, hclosed⟩
    · obtain ⟨hlength, hclosed⟩ := u.of_submissions_ne_nil hu
      have hrest := (next (u.perform.run h).1).submissions_of_reads hclosed
      have hend := ((next (u.perform.run h).1).db_run hclosed).2
      rw [submissions, hrest, List.append_nil]
      exact ⟨hlength, hwrites, hend⟩

namespace Session

variable {s : Session}

theorem length_updateSubmissions_le (script : Script α) (db : Database) (machine : Machine) :
    (updateSubmissions script db machine).length ≤ 1 := by
  have hclosing := script.of_submissions_ne_nil (h := ⟨Tx.begin true, db, machine⟩)
  rw [updateSubmissions]
  revert hclosing
  rcases script.run.run ⟨Tx.begin true, db, machine⟩ with ⟨cause | a, after⟩
  · intro hclosing
    by_cases hscript : script.submissions ⟨Tx.begin true, db, machine⟩ = []
    · simp [hscript]
    · simp [(hclosing hscript).1]
  · intro hclosing
    by_cases hscript : script.submissions ⟨Tx.begin true, db, machine⟩ = []
    · by_cases hend : Use.commit.submissions after = []
      · simp [hscript, show after.submissions = [] from hend]
      · simp [hscript, show after.submissions.length = 1 from (Use.commit.of_submissions_ne_nil hend).1]
    · obtain ⟨hlength, -, hclosed⟩ := hclosing hscript
      have hend : after.submissions = [] := Use.commit.submissions_of_reads hclosed
      simp [hlength, hend]

/-- An action submits at most once. -/
theorem Action.length_submissions_le (action : Action α) (s : Session) : (action.submissions s).length ≤ 1 := by
  have hscript (script : Script α) (h : Handle) : (script.submissions h).length ≤ 1 := by
    by_cases hnone : script.submissions h = []
    · simp [hnone]
    · exact Nat.le_of_eq (script.of_submissions_ne_nil hnone).1
  cases action with
  | use name script =>
    rw [Action.submissions]
    split
    · exact hscript script _
    · simp
  | update script =>
    rw [Action.submissions]
    split
    · split
      · simp
      · exact length_updateSubmissions_le script _ _
    · simp
  | view script =>
    rw [Action.submissions]
    split
    · exact hscript script _
    · simp
  | begin name writable => simp [Action.submissions]
  | drop name => simp [Action.submissions]
  | sync => simp [Action.submissions]
  | close => simp [Action.submissions]
  | reopen config => simp [Action.submissions]

/-- After an action that submits something, no transaction writes. -/
theorem isWriting_act_of_submissions (action : Action α) (hs : s.Sound) (hsubmits : action.submissions s ≠ []) :
    (act action s).2.isWriting = false := by
  cases action with
  | use name script =>
    cases hdb : s.db with
    | none => simp [Action.submissions, hdb] at hsubmits
    | some db =>
      cases htx : s.txs[name]? with
      | none => simp [Action.submissions, hdb, htx] at hsubmits
      | some tx =>
        simp only [Action.submissions, hdb, htx] at hsubmits
        obtain ⟨-, hwrites, hclosed⟩ := script.of_submissions_ne_nil hsubmits
        rw [isWriting_eq_false_iff]
        intro other later hlater
        simp only [act, withValue, onTx, hdb, htx] at hlater
        rcases of_getElem?_insert hlater with ⟨-, rfl⟩ | ⟨hother, hlater⟩
        · exact hclosed
        · exact hs.single.alone htx hwrites hother hlater
  | update script =>
    cases hdb : s.db with
    | none => simp [Action.submissions, hdb] at hsubmits
    | some db =>
      cases hwriting : s.isWriting with
      | true => simp [Action.submissions, hdb, hwriting] at hsubmits
      | false =>
        simp only [act, withValue, Session.update, onDatabase, hdb, hwriting, Bool.false_eq_true, if_false]
        exact hwriting
  | view script =>
    cases hdb : s.db with
    | none => simp [Action.submissions, hdb] at hsubmits
    | some db =>
      simp only [Action.submissions, hdb] at hsubmits
      exact absurd (script.submissions_of_reads rfl) hsubmits
  | begin name writable => exact absurd rfl hsubmits
  | drop name => exact absurd rfl hsubmits
  | sync => exact absurd rfl hsubmits
  | close => exact absurd rfl hsubmits
  | reopen config => exact absurd rfl hsubmits

end Session

/-! ## One commit -/

namespace Database

/-- A call on the log leaves the rest of the database as it is. -/
theorem of_run_onLog {call : Attempt Writer.State Unit} {r after : Running} {outcome : Except Error Unit}
    (h : (onLog call).run r = (outcome, after)) :
    (r.db.log = none ∧ outcome = .ok () ∧ after = r) ∨
    ∃ writer s, r.db.log = some writer ∧ call.run ⟨writer, r.machine⟩ = (outcome, s) ∧
      after = ⟨{ r.db with log := some s.writer }, s.machine⟩ := by
  rw [onLog, Attempt.run_ofFn] at h
  revert h
  cases hlog : r.db.log with
  | none =>
    intro h
    cases h
    exact Or.inl ⟨rfl, rfl, rfl⟩
  | some writer =>
    intro h
    cases h
    exact Or.inr ⟨writer, _, rfl, rfl, rfl⟩

namespace Handle

variable {h : Handle} {draft : Draft} {after : Running} {e : Error}

/-- The append of a commit: the batch of the draft under the next id, which is taken in any case. -/
def submit (h : Handle) (draft : Draft) : Except Error Unit × Running :=
  (onLog (Writer.append (Record.sealBatch h.db.nextTxId draft.pending))).run
    ⟨{ h.db with nextTxId := h.db.nextTxId + 1 }, h.machine⟩

/-- After an append the rest of the database is as it was, the id apart. -/
theorem db_submit {outcome : Except Error Unit} (hsubmit : h.submit draft = (outcome, after)) :
    after.db = { h.db with nextTxId := h.db.nextTxId + 1, log := after.db.log } := by
  rcases of_run_onLog hsubmit with ⟨-, -, rfl⟩ | ⟨writer, s, -, -, rfl⟩ <;> rfl

theorem run_commitDraft_eq (draft : Draft) (r : Running) :
    (commitDraft draft).run r =
      match (onLog (Writer.append (Record.sealBatch r.db.nextTxId draft.pending))).run
        ⟨{ r.db with nextTxId := r.db.nextTxId + 1 }, r.machine⟩ with
      | (.error cause, after) =>
        (.error cause, { after with machine := after.machine.report (.commitFailed r.db.nextTxId cause) })
      | (.ok (), after) =>
        (.ok r.db.nextTxId, { after with db.index := installAll after.db.index draft.working }) := by
  have htake := Attempt.run_modify (fun r' : Running => { r' with db.nextTxId := r.db.nextTxId + 1 }) r
  rw [commitDraft, Attempt.run_bind_ok (Attempt.run_get r)]
  simp only
  rw [Attempt.run_bind_ok htake, Attempt.run_bind_ok (Attempt.run_outcome _ _)]
  rcases (onLog (Writer.append (Record.sealBatch r.db.nextTxId draft.pending))).run
    ⟨{ r.db with nextTxId := r.db.nextTxId + 1 }, r.machine⟩ with ⟨_ | _, after⟩ <;> rfl

/-- A commit whose batch is appended installs the copies. -/
theorem run_commit_of_submit_ok (htx : h.tx = .writing draft) (hpending : draft.pending ≠ [])
    (hsubmit : h.submit draft = (.ok (), after)) :
    ∃ env, commit.run h = (.ok (), ⟨.closed,
      { after.db with index := installAll after.db.index draft.working }, { after.machine with env }⟩) := by
  have hdraft := run_commitDraft_eq draft ⟨h.db, h.machine⟩
  rw [show (onLog _).run _ = _ from hsubmit] at hdraft
  have hdatabase : (onDatabase (commitDraft draft)).run { h with tx := .closed } = (.ok h.db.nextTxId,
      ⟨.closed, { after.db with index := installAll after.db.index draft.working }, after.machine⟩) := by
    rw [onDatabase, Attempt.run_onPart, hdraft]
  rw [commit, Attempt.run_bind_ok (run_close_writing htx)]
  simp only [List.isEmpty_iff, hpending, if_false]
  rw [Attempt.run_bind_ok hdatabase]
  exact ⟨_, rfl⟩

/-- A commit whose batch is not appended fails as the append does, and installs nothing. -/
theorem run_commit_of_submit_error (htx : h.tx = .writing draft) (hpending : draft.pending ≠ [])
    (hsubmit : h.submit draft = (.error e, after)) :
    ∃ env, commit.run h = (.error e, ⟨.closed, after.db, { after.machine with env }⟩) := by
  have hdraft := run_commitDraft_eq draft ⟨h.db, h.machine⟩
  rw [show (onLog _).run _ = _ from hsubmit] at hdraft
  have hdatabase : ∃ env, (onDatabase (commitDraft draft)).run { h with tx := .closed } =
      (.error e, ⟨.closed, after.db, { after.machine with env }⟩) := by
    rw [onDatabase, Attempt.run_onPart, hdraft]
    exact ⟨_, rfl⟩
  obtain ⟨env, hdatabase⟩ := hdatabase
  rw [commit, Attempt.run_bind_ok (run_close_writing htx)]
  simp only [List.isEmpty_iff, hpending, if_false]
  rw [Attempt.run_bind_error hdatabase]
  exact ⟨env, rfl⟩

/-- A commit that succeeds makes the index what the transaction has seen. -/
theorem store?_commit (hsound : h.tx.Sound h.db.index) (hok : (commit.run h).1 = .ok ()) (bucket : String) :
    (commit.run h).2.db.index.store? bucket = h.tx.visible h.db.index bucket := by
  by_cases hidle : h.tx.pending = []
  · rw [(run_commit_idle hidle).1]
    exact (hsound.visible_of_idle hidle bucket).symm
  · obtain ⟨draft, htx⟩ := Tx.exists_writing hidle
    rw [htx] at hidle
    cases hsubmit : h.submit draft with
    | mk outcome after =>
      cases outcome with
      | error e =>
        obtain ⟨env, hrun⟩ := run_commit_of_submit_error htx hidle hsubmit
        rw [hrun] at hok
        cases hok
      | ok _ =>
        obtain ⟨env, hrun⟩ := run_commit_of_submit_ok htx hidle hsubmit
        have hindex : after.db.index = h.db.index := by rw [db_submit hsubmit]
        rw [hrun, htx, Draft.Faithful.visible_eq]
        simp only [hindex]

end Handle

end Database

end DurableLists

import DurableLists.Proofs.Session.Scripts

/-!
# Runs on a log that takes every request

`Session.Backed` is the invariant of a run: the log of the session is stored, the database that is open, if
one is, is backed by it, and the session is sound. One action keeps it and appends the batches of its commits
(`Session.advances_act`); so does a run of any actions that keep to the log (`Session.advances_run`), and every
reopening in it succeeds (`Session.reopen_answers`).
-/

set_option autoImplicit false

namespace DurableLists

namespace Session

open Database

variable {α : Type} {path : String} {place : Location} {rs : List Record} {index : Index} {s : Session}

/-- A session whose log is stored under the records `rs` and gives an index. -/
structure Backed (path : String) (place : Location) (rs : List Record) (index : Index) (s : Session) :
    Prop where
  stored : Stored s.machine.disk path place rs index
  running : ∀ db, s.db = some db → Database.Backed path place rs ⟨db, s.machine⟩ ∧ db.index = index
  sound : s.Sound

/-- What actions make of a session. -/
structure Advances (path : String) (place : Location) (rs : List Record) (index : Index)
    (commits : List Commit) (after : Session) : Prop where
  backed : ∃ stop, Backed path place (rs ++ Commit.records commits) stop after ∧
    Commit.Chained index commits stop
  separate : Commit.Separate rs commits

theorem Backed.advances_nil (h : Backed path place rs index s) : Advances path place rs index [] s := by
  refine ⟨⟨index, ?_, rfl⟩, fun c hc => absurd hc (by simp)⟩
  rw [Commit.records_nil, List.append_nil]
  exact h

/-! ## Transactions of a session -/

theorem Backed.of_env (h : Backed path place rs index s) {env : Env} {s' : Session}
    (hmachine : s'.machine = { s.machine with env }) (hdb : s'.db = s.db ∨ s'.db = none) (hsound : s'.Sound) :
    Backed path place rs index s' := by
  refine ⟨?_, fun db hopen => ?_, hsound⟩
  · rw [hmachine]
    exact h.stored
  · rcases hdb with hdb | hdb
    · rw [hdb] at hopen
      obtain ⟨hrunning, hindex⟩ := h.running db hopen
      rw [hmachine]
      exact ⟨hrunning.of_env env, hindex⟩
    · rw [hdb] at hopen
      cases hopen

theorem Backed.dropTx (h : Backed path place rs index s) (name : String) :
    Backed path place rs index (s.dropTx name) := by
  have hsound := h.sound.dropTx name
  obtain ⟨env, hdrop⟩ := dropTx_eq name s
  rw [hdrop] at hsound ⊢
  exact h.of_env rfl (Or.inl rfl) hsound

theorem Backed.close (h : Backed path place rs index s) : Backed path place rs index s.close := by
  have hsound := Sound.close s
  obtain ⟨env, hclose⟩ := close_eq s
  have hmachine : s.close.machine = { s.machine with env } := by
    rw [hclose]
    cases hdb : s.db with
    | none => rfl
    | some db => exact ((h.running db hdb).1.of_env env).release
  exact h.of_env hmachine (Or.inr (by rw [hclose])) hsound

/-! ## Work on the open database -/

theorem Backed.advances_of_running (h : Backed path place rs index s) {db : Database}
    (hdb : s.db = some db) {after : Running} {cs : List Commit}
    (hafter : Database.Advances path place rs ⟨db, s.machine⟩ cs after) {s' : Session}
    (hdb' : s'.db = some after.db) (hmachine : s'.machine = after.machine) (hsound : s'.Sound) :
    Advances path place rs index cs s' := by
  refine ⟨⟨after.db.index, ⟨?_, fun db' hopen => ?_, hsound⟩, ?_⟩, hafter.separate⟩
  · rw [hmachine]
    exact hafter.backed.stored
  · rw [hdb'] at hopen
    cases hopen
    rw [hmachine]
    exact ⟨hafter.backed, rfl⟩
  · rw [← (h.running db hdb).2]
    exact hafter.chained

/-! ## Opening again -/

theorem Backed.reopened (h : Backed path place rs index s) {config : Config}
    (henabled : config.persistence.enabled = true) (hpath : config.persistence.logPath = path) :
    ∃ db machine, s.reopen config = (.ok (.ok ()), { s.close with config, machine, db := some db }) ∧
      Database.Opened path place rs [] ⟨db, machine⟩ ∧ db.index = index := by
  have hclose := h.close
  subst hpath
  obtain ⟨db, machine, hopen, hopened, hindex⟩ := hclose.stored.opened henabled
  refine ⟨db, machine, ?_, hopened, hindex⟩
  simp only [Session.reopen, hopen]

theorem Backed.reopen (h : Backed path place rs index s) {config : Config}
    (henabled : config.persistence.enabled = true) (hpath : config.persistence.logPath = path) :
    ∃ s', s.reopen config = (.ok (.ok ()), s') ∧ Backed path place rs index s' := by
  obtain ⟨db, machine, hreopen, hopened, rfl⟩ := h.reopened henabled hpath
  have hbacked := h.stored.backed hopened
  have hsound := Sound.reopen s config
  rw [hreopen] at hsound
  refine ⟨_, hreopen, hbacked.stored, ?_, hsound⟩
  intro db' hdb'
  cases hdb'
  exact ⟨hbacked, rfl⟩

/-! ## Actions -/

/-- Whether an action opens no other log than the one at a path. -/
def Action.StaysOn (path : String) : Action α → Prop
  | .reopen config => config.persistence.enabled = true ∧ config.persistence.logPath = path
  | .begin .. | .drop _ | .use .. | .update _ | .view _ | .sync | .close => True

theorem Backed.begin (h : Backed path place rs index s) (name : String) (writable : Bool) :
    Backed path place rs index (s.begin name writable).2 := by
  have hsound := h.sound.begin name writable
  have hdropped := h.dropTx name
  revert hsound
  simp only [Session.begin]
  split
  · exact fun _ => h
  · split
    · exact fun _ => hdropped
    · exact fun hsound => ⟨hdropped.stored, hdropped.running, hsound⟩

theorem Backed.sync (h : Backed path place rs index s) :
    Backed path place rs index (s.onDatabase Database.sync).2 := by
  have hsound := h.sound.sync
  cases hdb : s.db with
  | none =>
    simp only [onDatabase, hdb]
    exact h
  | some db =>
    obtain ⟨hrunning, hindex⟩ := h.running db hdb
    obtain ⟨after, hsync, hafter, hsame⟩ := hrunning.sync
    simp only [onDatabase, hdb, hsync] at hsound ⊢
    have hindex' : after.db.index = index := hsame.trans hindex
    refine ⟨hindex' ▸ hafter.stored, fun db' hdb' => ?_, hsound⟩
    cases hdb'
    exact ⟨hafter, hindex'⟩

theorem Backed.use (h : Backed path place rs index s) (name : String) (script : Script α)
    (hadmissible : Commit.Admissible rs (Action.commits s (.use name script))) :
    Advances path place rs index (Action.commits s (.use name script)) (s.onTx name script.run).2 := by
  have hsound := h.sound.use name script
  cases hdb : s.db with
  | none =>
    simp only [onTx, Action.commits, hdb]
    exact h.advances_nil
  | some db =>
    cases htx : s.txs[name]? with
    | none =>
      simp only [onTx, Action.commits, hdb, htx]
      exact h.advances_nil
    | some tx =>
      have hbacked : Handle.Backed path place rs ⟨tx, db, s.machine⟩ :=
        ⟨(h.running db hdb).1, h.sound.drafts db name tx hdb htx⟩
      simp only [Action.commits, hdb, htx] at hadmissible
      simp only [onTx, Action.commits, hdb, htx] at hsound ⊢
      exact h.advances_of_running hdb (script.advances_run hbacked hadmissible) rfl rfl hsound

theorem Backed.update (h : Backed path place rs index s) (script : Script α)
    (hadmissible : Commit.Admissible rs (Action.commits s (.update script))) :
    Advances path place rs index (Action.commits s (.update script)) (s.update script).2 := by
  have hsound := h.sound.update script
  cases hwriting : s.isWriting with
  | true =>
    have hnone : Action.commits s (.update script) = [] := by
      simp only [Action.commits, hwriting, if_true]
      split <;> rfl
    simp only [hnone, Session.update, hwriting, if_true]
    exact h.advances_nil
  | false =>
    cases hdb : s.db with
    | none =>
      simp only [Session.update, onDatabase, Action.commits, hdb, hwriting, Bool.false_eq_true, if_false]
      exact h.advances_nil
    | some db =>
      simp only [Action.commits, hdb, hwriting, Bool.false_eq_true, if_false] at hadmissible
      simp only [Session.update, onDatabase, Action.commits, hdb, hwriting, Bool.false_eq_true,
        if_false] at hsound ⊢
      exact h.advances_of_running hdb (advances_update script (h.running db hdb).1 hadmissible) rfl rfl hsound

theorem Backed.view (h : Backed path place rs index s) (script : Script α)
    (hadmissible : Commit.Admissible rs (Action.commits s (.view script))) :
    Advances path place rs index (Action.commits s (.view script)) (s.view script).2 := by
  have hsound := h.sound.view script
  cases hdb : s.db with
  | none =>
    simp only [Session.view, onDatabase, Action.commits, hdb]
    exact h.advances_nil
  | some db =>
    simp only [Action.commits, hdb] at hadmissible
    simp only [Session.view, onDatabase, Action.commits, hdb] at hsound ⊢
    exact h.advances_of_running hdb (advances_view script (h.running db hdb).1 hadmissible) rfl rfl hsound

/-- One action keeps the invariant, and the log grows by the batches of its commits. -/
theorem advances_act (action : Action α) (h : Backed path place rs index s) (hstays : action.StaysOn path)
    (hadmissible : Commit.Admissible rs (action.commits s)) :
    Advances path place rs index (action.commits s) (act action s).2 := by
  cases action with
  | begin name writable => exact (h.begin name writable).advances_nil
  | drop name => exact (h.dropTx name).advances_nil
  | use name script => exact h.use name script hadmissible
  | update script => exact h.update script hadmissible
  | view script => exact h.view script hadmissible
  | sync => exact h.sync.advances_nil
  | close => exact h.close.advances_nil
  | reopen config =>
    obtain ⟨s', hreopen, hbacked⟩ := h.reopen hstays.1 hstays.2
    rw [act, hreopen]
    exact hbacked.advances_nil

/-! ## Runs -/

/-- A run of actions that keep to a log appends the batches of its commits to it. -/
theorem advances_run (actions : List (Action α)) (h : Backed path place rs index s)
    (hstays : ∀ action ∈ actions, action.StaysOn path)
    (hadmissible : Commit.Admissible rs (commits actions s)) :
    Advances path place rs index (commits actions s) (run actions s).2 := by
  induction actions generalizing s rs index with
  | nil => exact h.advances_nil
  | cons action actions ih =>
    obtain ⟨⟨middle, hbacked, hchained⟩, hseparate⟩ :=
      advances_act action h (hstays action (by simp)) hadmissible.left
    obtain ⟨⟨stop, hlast, hrest⟩, hlater⟩ := ih hbacked (fun later hl => hstays later (by simp [hl]))
      (hadmissible.right hseparate)
    refine ⟨⟨stop, ?_, hchained.append hrest⟩, hseparate.append hlater⟩
    rw [commits, Commit.records_append, ← List.append_assoc]
    exact hlast

/-- Every reopening in a run that keeps to a log succeeds. -/
theorem reopen_answers (actions : List (Action α)) (h : Backed path place rs index s)
    (hstays : ∀ action ∈ actions, action.StaysOn path)
    (hadmissible : Commit.Admissible rs (commits actions s)) (i : Nat) (config : Config)
    (hi : actions[i]? = some (.reopen config)) : (run actions s).1[i]? = some (.ok (.ok none)) := by
  induction actions generalizing s rs index i with
  | nil => cases hi
  | cons action actions ih =>
    obtain ⟨⟨middle, hbacked, -⟩, hseparate⟩ :=
      advances_act action h (hstays action (by simp)) hadmissible.left
    cases i with
    | zero =>
      cases hi
      obtain ⟨henabled, hpath⟩ := hstays (.reopen config) (by simp)
      obtain ⟨s', hreopen, -⟩ := h.reopen henabled hpath
      have hact : (act (.reopen config : Action α) s).1 = .ok (.ok none) := by
        rw [act, hreopen]
        rfl
      rw [run, ← hact]
      rfl
    | succ i =>
      have hlater := ih hbacked (fun later hl => hstays later (by simp [hl]))
        (hadmissible.right hseparate) i hi
      rw [run]
      exact hlater

end Session

end DurableLists

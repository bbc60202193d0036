import DurableLists.Proofs.Database.Logged
import DurableLists.Proofs.Session.Runs

/-!
# Sessions on a log that may fail

`Session.Logged` is the invariant of a run whose files may refuse any write and any sync: the disk keeps a log, the
database that is open, if one is, is on it, and the session is sound. It holds from the first opening of a log that is
absent or empty on (`Opens.logged`), one action keeps it (`Session.logged_act`), and so does a run
(`Session.logged_run`); closings hand over what was held back, and openings may fail.
-/

set_option autoImplicit false

namespace DurableLists

namespace Session

open Database

variable {α : Type} {path : String} {place : Location} {s : Session}

/-- A session on a log that may fail. -/
structure Logged (path : String) (place : Location) (s : Session) : Prop where
  keeps : s.machine.disk.Keeps path place
  running : ∀ db, s.db = some db → Database.Logged path place ⟨db, s.machine⟩
  sound : s.Sound

/-- A session that has opened its first database, on a machine whose log has a content, however it answers. -/
structure Opens (machine : Machine) (config : Config) (content : Bytes) (s : Session) : Prop where
  enabled : config.persistence.enabled = true
  meets : machine.disk.Meets config.persistence.logPath content
  opened : (start machine config).reopen config = (.ok (.ok ()), s)

theorem Logged.of_db {db : Database} (hdb : s.db = some db) (hlogged : Database.Logged path place ⟨db, s.machine⟩)
    (hsound : s.Sound) : Logged path place s := by
  refine ⟨hlogged.keeps, fun db' hdb' => ?_, hsound⟩
  rw [hdb] at hdb'
  cases hdb'
  exact hlogged

theorem Opens.logged {machine : Machine} {config : Config} (h : Opens machine config [] s) :
    ∃ place, Logged config.persistence.logPath place s := by
  have hsound := Sound.reopen (start machine config) config
  have hopened := h.opened
  rw [hopened] at hsound
  rw [Session.reopen, close_start] at hopened
  cases hopen : (Database.open config).run (start machine config).machine with
  | mk outcome after =>
    simp only [hopen] at hopened
    cases outcome with
    | error e => cases hopened
    | ok db =>
      cases hopened
      obtain ⟨place, hlogged⟩ := logged_of_open h.enabled h.meets hopen
      exact ⟨place, .of_db rfl hlogged hsound⟩

/-! ## Closing and opening -/

theorem Logged.close (h : Logged path place s) : Logged path place s.close := by
  have hsound := Sound.close s
  obtain ⟨env, hclose⟩ := close_eq s
  rw [hclose] at hsound ⊢
  refine ⟨?_, nofun, hsound⟩
  cases hdb : s.db with
  | none => exact h.keeps
  | some db =>
    have hsame : Database.Logged path place ⟨db, { s.machine with env }⟩ := (h.running db hdb).of_eq rfl rfl
    exact hsame.release

theorem Logged.reopen (h : Logged path place s) {config : Config} (henabled : config.persistence.enabled = true)
    (hpath : config.persistence.logPath = path) : Logged path place (s.reopen config).2 := by
  subst hpath
  have hsound := Sound.reopen s config
  have hclosed : s.close.db = none := by
    obtain ⟨env, hclose⟩ := close_eq s
    rw [hclose]
  rw [Session.reopen] at hsound ⊢
  obtain ⟨db, machine, hopen, hlogged⟩ | ⟨e, machine, hopen, hkeeps⟩ := open_of_keeps henabled h.close.keeps
  · rw [hopen] at hsound ⊢
    exact .of_db rfl hlogged hsound
  · rw [hopen] at hsound ⊢
    refine ⟨hkeeps, fun db hdb => ?_, hsound⟩
    rw [hclosed] at hdb
    cases hdb

/-! ## Actions and runs -/

theorem logged_act (action : Action α) (h : Logged path place s) (hstays : action.StaysOn path)
    (hfits : ∀ t ∈ action.submissions s, ∀ r ∈ t.pending, Frame.Fits r) : Logged path place (act action s).2 := by
  have hsound := sound_act action h.sound
  by_cases hkeeps : action.KeepsOpen
  · cases hdb : s.db with
    | none =>
      obtain ⟨hclosed, -, hdisk⟩ := act_of_closed action hkeeps hdb
      refine ⟨hdisk ▸ h.keeps, fun db hopen => ?_, hsound⟩
      rw [hclosed] at hopen
      cases hopen
    | some db =>
      obtain ⟨db', hdb', hlogged⟩ := tracks_act (tracks_logged path place) action
        (fun _ r _ hr => hr.sync) hkeeps h.sound hdb
      exact .of_db hdb' (hlogged hfits (h.running db hdb)) hsound
  · cases action with
    | close => exact h.close
    | reopen config => exact h.reopen hstays.1 hstays.2
    | begin name writable => exact absurd trivial hkeeps
    | drop name => exact absurd trivial hkeeps
    | use name script => exact absurd trivial hkeeps
    | update script => exact absurd trivial hkeeps
    | view script => exact absurd trivial hkeeps
    | sync => exact absurd trivial hkeeps

/-- A run of actions that keep to a log, whatever the files answer. -/
theorem logged_run (actions : List (Action α)) (h : Logged path place s)
    (hstays : ∀ action ∈ actions, action.StaysOn path)
    (hfits : ∀ t ∈ submissions actions s, ∀ r ∈ t.pending, Frame.Fits r) :
    Logged path place (run actions s).2 := by
  induction actions generalizing s with
  | nil => exact h
  | cons action actions ih =>
    have hfirst := logged_act action h (hstays action (by simp)) fun t ht => hfits t (List.mem_append_left _ ht)
    exact ih hfirst (fun later hl => hstays later (by simp [hl])) fun t ht => hfits t (List.mem_append_right _ ht)

end Session

end DurableLists

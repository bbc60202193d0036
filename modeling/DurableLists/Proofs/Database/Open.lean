import DurableLists.Database
import DurableLists.Proofs.Log.Load
import DurableLists.Proofs.Log.Append

/-!
# Opening a database

A database that is opened on a log which splits has the index that the replay of the closed transactions
gives, a writer that stands at the end of their frames, and an id above every id in the file
(`Database.open_of_splits`). It cannot be opened on a log that is corrupt or that cannot be replayed
(`Database.open_corrupt`, `Database.open_replay_error`), so an opening that succeeds has met a log that
splits, or none (`Database.opened_of_open`).
-/

set_option autoImplicit false

namespace DurableLists

/-! ## Opening for appending -/

namespace Writer

variable {m : Machine} {config : Persistence} {place : Location} {content : Bytes}

theorem createParents_of_contains (h : m.disk.Contains config.logPath place content) :
    (Machine.createParents config.logPath).run m = (.ok (), m) := by
  rw [Machine.createParents, Attempt.run_ofFn, h.createParents]

theorem onDisk_openAppend {disk : Disk} (h : m.disk.openAppend config.logPath = .ok (place, disk)) :
    (Machine.onDisk fun d => d.openAppend config.logPath).run m = (.ok place, { m with disk }) := by
  simp only [Machine.onDisk, Attempt.run_ofFn, h]

theorem open_of_contains (h : m.disk.Contains config.logPath place content) :
    ∃ writer env, (Writer.open config).run m = (.ok writer, { m with env }) ∧ writer.Ready place := by
  rw [Writer.open, Attempt.run_bind_ok (createParents_of_contains h),
    Attempt.run_bind_ok (onDisk_openAppend h.openAppend)]
  exact ⟨_, _, rfl, rfl, rfl, rfl⟩

/-- Opening a log that is missing creates the file. -/
theorem find_of_open (hmissing : (m.disk.createParents config.logPath).2.find config.logPath =
      .error .notFound) {writer : Writer} {m' : Machine}
    (h : (Writer.open config).run m = (.ok writer, m')) :
    ∃ place, m'.disk.find config.logPath = .ok (place, .regular ⟨[], m.disk.created, 0⟩) ∧
      writer.Ready place := by
  have hcreated := m.disk.created_createParents config.logPath
  rw [Writer.open, Attempt.run_bind, Machine.createParents, Attempt.run_ofFn] at h
  revert hmissing h hcreated
  rcases m.disk.createParents config.logPath with ⟨_ | cause, disk⟩
  · intro hmissing h hcreated
    simp only at h hcreated
    rw [Attempt.run_bind, Machine.onDisk, Attempt.run_ofFn] at h
    revert h
    cases hopen : disk.openAppend config.logPath with
    | error cause =>
      intro h
      cases h
    | ok p =>
      obtain ⟨place, disk'⟩ := p
      intro h
      cases h
      have hfind := Disk.find_of_openAppend hmissing hopen
      rw [hcreated] at hfind
      exact ⟨place, hfind, rfl, rfl, rfl⟩
  · intro _ h _
    cases h

end Writer

namespace Database

/-! ## Opening on a log -/

/-- What an opening leaves that has met a log at a path with closed transactions in `kept` and open
records in `dropped`. -/
structure Opened (path : String) (place : Location) (kept dropped : List Record) (r : Running) : Prop where
  holds : r.machine.disk.Holds path place (Frame.encodeAll kept)
  log : ∃ writer, r.db.log = some writer ∧ writer.Ready place
  replayed : (Index.replay (Scan.transactions kept).flatten).run ∅ = (.ok (), r.db.index)
  nextTxId_eq : r.db.nextTxId = (Scan.after (kept ++ dropped)).lastTxId + 1

variable {m : Machine} {config : Config} {place : Location} {content : Bytes}

theorem run_open (henabled : config.persistence.enabled = true) {index : Index} {writer : Writer}
    {lastTxId : UInt64} {m' : Machine}
    (h : (openLog config.persistence).run m = (.ok (index, writer, lastTxId), m')) :
    (Database.open config).run m =
      (.ok ⟨config, index, some writer, lastTxId + 1⟩, m'.report (.databaseOpened index.size)) := by
  rw [Database.open]
  simp only [henabled, if_true]
  rw [Attempt.run_bind, h]
  rfl

theorem run_open_error (henabled : config.persistence.enabled = true) {e : Error} {m' : Machine}
    (h : (openLog config.persistence).run m = (.error e, m')) :
    (Database.open config).run m = (.error e, m') := by
  rw [Database.open]
  simp only [henabled, if_true]
  rw [Attempt.run_bind, h]

theorem run_openLog {config : Persistence} {stats : LoadedLog.Stats} {index : Index} {m' : Machine}
    (h : (LoadedLog.load config.logPath).run ⟨∅, m⟩ = (.ok stats, ⟨index, m'⟩)) :
    (openLog config).run m = match (Writer.open config).run m' with
      | (.ok writer, m'') => (.ok (index, writer, stats.lastTxId), m'')
      | (.error e, m'') => (.error e, m'') := by
  rw [openLog, Attempt.run_bind, Attempt.run_ofFn]
  simp only [h]
  change (Writer.open config >>= fun writer => pure (index, writer, stats.lastTxId)).run m' = _
  rw [Attempt.run_bind]
  rcases (Writer.open config).run m' with ⟨_ | writer, m''⟩ <;> rfl

theorem run_openLog_error {config : Persistence} {e : Error} {index : Index} {m' : Machine}
    (h : (LoadedLog.load config.logPath).run ⟨∅, m⟩ = (.error e, ⟨index, m'⟩)) :
    (openLog config).run m = (.error e, m') := by
  rw [openLog, Attempt.run_bind, Attempt.run_ofFn]
  simp only [h]
  rfl

theorem open_of_splits (henabled : config.persistence.enabled = true)
    (h : m.disk.Holds config.persistence.logPath place content) {kept dropped : List Record} {tail : Bytes}
    (hsplits : Scan.Splits content kept dropped tail) {index : Index}
    (hreplay : (Index.replay (Scan.transactions kept).flatten).run ∅ = (.ok (), index)) :
    ∃ db m', (Database.open config).run m = (.ok db, m') ∧
      Opened config.persistence.logPath place kept dropped ⟨db, m'⟩ ∧ db.index = index := by
  obtain ⟨file, hfind, rfl, hfile⟩ := h
  obtain ⟨machine, hload, hcut⟩ := LoadedLog.load_of_splits hfind (fun _ => hfile.2 _) hsplits hreplay
  have hholds := hcut.holds hfile
  obtain ⟨writer, env, hwriter, hready⟩ := Writer.open_of_contains hholds.contains
  have hlog := run_openLog hload
  rw [hwriter] at hlog
  exact ⟨_, _, run_open henabled hlog, ⟨hholds, ⟨writer, rfl, hready⟩, hreplay, rfl⟩, rfl⟩

/-- A database is not opened on a corrupt log, and the files stay as they are. -/
theorem open_corrupt (henabled : config.persistence.enabled = true)
    (h : m.disk.Holds config.persistence.logPath place content) {cause : Corruption}
    (hread : (Scan.start.readAll (Disk.chunks Disk.chunkSize content)).1 = some cause) :
    ∃ env, (Database.open config).run m = (.error (.logCorrupted cause), { m with env }) := by
  obtain ⟨file, hfind, rfl, -⟩ := h
  obtain ⟨env, hload⟩ := LoadedLog.load_corrupt hfind hread
  exact ⟨env, run_open_error henabled (run_openLog_error hload)⟩

theorem open_replay_error (henabled : config.persistence.enabled = true)
    (h : m.disk.Holds config.persistence.logPath place content) {kept dropped : List Record} {tail : Bytes}
    (hsplits : Scan.Splits content kept dropped tail) {index : Index} {e : Error}
    (hreplay : (Index.replay (Scan.transactions kept).flatten).run ∅ = (.error e, index)) :
    ∃ m', (Database.open config).run m = (.error e, m') := by
  obtain ⟨file, hfind, rfl, -⟩ := h
  obtain ⟨env, hload⟩ := LoadedLog.load_replay_error hfind hsplits hreplay
  exact ⟨_, run_open_error henabled (run_openLog_error hload)⟩

/-- An opening that finds no log creates one. -/
theorem created_of_open (henabled : config.persistence.enabled = true)
    (hfind : m.disk.find config.persistence.logPath = .error .notFound)
    (hmissing : (m.disk.createParents config.persistence.logPath).2.find config.persistence.logPath =
      .error .notFound) {db : Database} {m' : Machine}
    (h : (Database.open config).run m = (.ok db, m')) :
    ∃ place writer, m'.disk.find config.persistence.logPath = .ok (place, .regular ⟨[], m.disk.created, 0⟩) ∧
      writer.Ready place ∧ db = ⟨config, ∅, some writer, 1⟩ := by
  obtain ⟨stats, env, hload, hid⟩ := LoadedLog.load_missing hfind
  have hlog := run_openLog hload
  cases hwriter : (Writer.open config.persistence).run { m with env } with
  | mk outcome machine =>
    rw [hwriter] at hlog
    cases outcome with
    | error e =>
      rw [run_open_error henabled hlog] at h
      cases h
    | ok writer =>
      rw [run_open henabled hlog] at h
      cases h
      obtain ⟨place, hcreated, hready⟩ := Writer.find_of_open (m := { m with env }) hmissing hwriter
      refine ⟨place, writer, hcreated, hready, ?_⟩
      rw [hid]
      rfl

/-- An opening that succeeds has met a log that splits, or none. -/
theorem opened_of_open (henabled : config.persistence.enabled = true)
    (hoffers : m.disk.Offers config.persistence.logPath content) {db : Database} {m' : Machine}
    (h : (Database.open config).run m = (.ok db, m')) :
    ∃ place kept dropped tail, Scan.Splits content kept dropped tail ∧
      Opened config.persistence.logPath place kept dropped ⟨db, m'⟩ := by
  rcases hoffers with ⟨place, hholds⟩ | ⟨rfl, hfind, hmissing, hreliable⟩
  · rcases Scan.exists_splits Disk.chunkSize (by decide) content with
      ⟨cause, hcorrupt⟩ | ⟨kept, dropped, tail, hsplits⟩
    · obtain ⟨env, hopen⟩ := open_corrupt henabled hholds hcorrupt
      rw [hopen] at h
      cases h
    · cases hreplay : (Index.replay (Scan.transactions kept).flatten).run ∅ with
      | mk outcome index =>
        cases outcome with
        | error e =>
          obtain ⟨machine, hopen⟩ := open_replay_error henabled hholds hsplits hreplay
          rw [hopen] at h
          cases h
        | ok _ =>
          obtain ⟨db', machine, hopen, hopened, -⟩ := open_of_splits henabled hholds hsplits hreplay
          rw [hopen] at h
          cases h
          exact ⟨place, kept, dropped, tail, hsplits, hopened⟩
  · obtain ⟨place, writer, hcreated, hready, rfl⟩ := created_of_open henabled hfind hmissing h
    exact ⟨place, [], [], [], Scan.splits_nil, ⟨_, hcreated, rfl, hreliable⟩, ⟨writer, rfl, hready⟩, rfl, rfl⟩

end Database

end DurableLists

import DurableLists.Proofs.Log.Latch
import DurableLists.Proofs.Session.Starts
import DurableLists.Proofs.Session.Tracks

/-!
# What a failed commit leaves

Whatever the file of a log answers to the writes and syncs that are asked of it, the committed index is the one at
the start with the batches of the successful commits, and nothing else, applied in their order; a commit whose batch
is not appended installs nothing; and after a failed commit or a failed sync the log takes nothing until the database
is opened again (`Session.index_of_commits`).

`Published` says this of the database between two moments. The writer is latched by the first failure, so the part
about later commits is an invariant: a latched log stays latched, and refuses every batch.
-/

set_option autoImplicit false

namespace DurableLists

namespace Database

/-- Whether the log of a database takes no batch any more. -/
def Latched (r : Running) : Prop := ∃ writer, r.db.log = some writer ∧ writer.readOnly = true

/-! ## The latch of a database -/

variable {r after : Running} {h : Handle} {draft : Draft} {e : Error}

theorem latched_of_sync_error (hsync : Database.sync.run r = (.error e, after)) : Latched after := by
  rcases of_run_onLog hsync with ⟨-, hok, -⟩ | ⟨writer, s, -, hrun, rfl⟩
  · cases hok
  · exact ⟨s.writer, rfl, Writer.of_sync_error hrun⟩

theorem Latched.sync (hr : Latched r) : Latched (Database.sync.run r).2 := by
  obtain ⟨writer, hlog, hlatch⟩ := hr
  have hkept := Writer.readOnly_sync (s := ⟨writer, r.machine⟩) hlatch
  simp only [Database.sync, onLog, Attempt.run_ofFn, hlog]
  exact ⟨_, rfl, hkept⟩

theorem index_sync (r : Running) : (Database.sync.run r).2.db.index = r.db.index := by
  rw [Database.sync, onLog, Attempt.run_ofFn]
  split <;> rfl

namespace Handle

theorem latched_of_submit_error (hsubmit : h.submit draft = (.error e, after)) : Latched after := by
  rcases of_run_onLog hsubmit with ⟨-, hok, -⟩ | ⟨writer, s, -, hrun, rfl⟩
  · cases hok
  · exact ⟨s.writer, rfl, Writer.of_append_error hrun⟩

theorem submit_of_latched (hh : Latched h.running) (draft : Draft) :
    ∃ after, h.submit draft = (.error .latched, after) := by
  obtain ⟨writer, hlog, hlatch⟩ := hh
  have hrefused := Writer.append_of_readOnly (s := ⟨writer, h.machine⟩) hlatch
    (Record.sealBatch h.db.nextTxId draft.pending)
  have hlog' : h.db.log = some writer := hlog
  simp only [submit, onLog, Attempt.run_ofFn, hlog', hrefused]
  exact ⟨_, rfl⟩

/-- A commit whose batch is not appended leaves the index as it was and the log latched. -/
theorem commit_of_submit_error (htx : h.tx = .writing draft) (hpending : draft.pending ≠ [])
    (hsubmit : h.submit draft = (.error e, after)) :
    (commit.run h).1 = .error e ∧ (commit.run h).2.db.index = h.db.index ∧
      Latched (commit.run h).2.running := by
  obtain ⟨env, hrun⟩ := run_commit_of_submit_error htx hpending hsubmit
  have hindex : after.db.index = h.db.index := by rw [db_submit hsubmit]
  have hlatched := latched_of_submit_error hsubmit
  rw [hrun]
  exact ⟨rfl, hindex, hlatched⟩

end Handle

/-! ## Between two moments -/

/-- What submissions make of a database whose log may fail. -/
structure Published (before : Running) (ts : List Submission) (after : Running) : Prop where
  chained : (∀ c ∈ ts.filterMap Submission.commit?, ∀ r ∈ c.pending, r.Sized) →
    Commit.Chained before.db.index (ts.filterMap Submission.commit?) after.db.index
  latches : (∃ t ∈ ts, ∃ e, t.outcome = .error e) → Latched after
  refuses : Latched before → Latched after ∧ after.db.index = before.db.index ∧
    ∀ t ∈ ts, t.outcome = .error .latched ∧ t.index = before.db.index

theorem Published.quiet {before after : Running} (hindex : after.db.index = before.db.index)
    (hlatch : Latched before → Latched after) : Published before [] after where
  chained _ := hindex
  latches h := by
    obtain ⟨t, ht, -⟩ := h
    cases ht
  refuses h := ⟨hlatch h, hindex, fun t ht => by cases ht⟩

theorem Published.trans {before middle after : Running} {ts us : List Submission}
    (h : Published before ts middle) (h' : Published middle us after) : Published before (ts ++ us) after where
  chained hsized := by
    rw [List.filterMap_append] at hsized ⊢
    have hfirst := h.chained fun c hc => hsized c (List.mem_append_left _ hc)
    have hsecond := h'.chained fun c hc => hsized c (List.mem_append_right _ hc)
    exact hfirst.append hsecond
  latches hfails := by
    obtain ⟨t, ht, hfails⟩ := hfails
    rcases List.mem_append.mp ht with ht | ht
    · exact (h'.refuses (h.latches ⟨t, ht, hfails⟩)).1
    · exact h'.latches ⟨t, ht, hfails⟩
  refuses hlatch := by
    obtain ⟨hmiddle, hindex, hts⟩ := h.refuses hlatch
    obtain ⟨hafter, hindex', hus⟩ := h'.refuses hmiddle
    refine ⟨hafter, hindex'.trans hindex, fun t ht => ?_⟩
    rcases List.mem_append.mp ht with ht | ht
    · exact hts t ht
    · rw [← hindex]
      exact hus t ht

/-- One commit, by what its append brings. -/
theorem Published.commit (htx : h.tx = .writing draft) (hpending : draft.pending ≠ [])
    (hsound : h.tx.Sound h.db.index) :
    Published h.running h.submissions (Handle.commit.run h).2.running := by
  rw [Handle.submissions_writing htx hpending]
  cases hsubmit : h.submit draft with
  | mk outcome after =>
    cases outcome with
    | error e =>
      obtain ⟨hfails, hindex, hlatched⟩ := Handle.commit_of_submit_error htx hpending hsubmit
      have hnone : (⟨h.db.nextTxId, draft.pending, (Handle.commit.run h).1,
          (Handle.commit.run h).2.db.index⟩ : Submission).commit? = none := by
        rw [hfails]
        rfl
      refine ⟨fun _ => ?_, fun _ => hlatched, fun hlatch => ⟨hlatched, hindex, fun t ht => ?_⟩⟩
      · rw [List.filterMap_cons_none hnone]
        exact hindex
      · rw [List.mem_singleton.mp ht, hfails]
        obtain ⟨after', hrefused⟩ := Handle.submit_of_latched hlatch draft
        rw [hrefused] at hsubmit
        cases hsubmit
        exact ⟨rfl, hindex⟩
    | ok _ =>
      obtain ⟨env, hrun⟩ := Handle.run_commit_of_submit_ok htx hpending hsubmit
      have hindex : after.db.index = h.db.index := by rw [Handle.db_submit hsubmit]
      rw [hrun]
      refine ⟨fun hsized => ?_, fun hfails => ?_, fun hlatch => ?_⟩
      · -- The draft is faithful, so its copies are what its records make of the index.
        rw [htx] at hsound
        have hrecords : ∀ r ∈ draft.pending, r.Sized := hsized ⟨_, _, _⟩ (List.mem_singleton.mpr rfl)
        obtain ⟨-, hreplay⟩ := hsound hrecords
        have hcopies : installAll after.db.index draft.working = installAll h.db.index draft.working := by
          rw [hindex]
        refine ⟨?_, rfl⟩
        change (Index.replay (Record.sealBatch h.db.nextTxId draft.pending)).run h.db.index =
          (.ok (), installAll after.db.index draft.working)
        rw [Index.replay_sealBatch, hcopies]
        exact hreplay
      · obtain ⟨t, ht, e, hfails⟩ := hfails
        rw [List.mem_singleton.mp ht] at hfails
        cases hfails
      · obtain ⟨after', hrefused⟩ := Handle.submit_of_latched hlatch draft
        rw [hrefused] at hsubmit
        cases hsubmit

theorem tracks_published : Tracks Published where
  quiet hdb _ := .quiet (by rw [hdb]) fun ⟨writer, hlog, hlatch⟩ => ⟨writer, by rw [hdb, hlog], hlatch⟩
  trans := .trans
  commit := .commit

theorem published_sync (r : Running) : Published r [] (Database.sync.run r).2 :=
  .quiet (index_sync r) Latched.sync

end Database

namespace Session

open Database

variable {α : Type} {s : Session} {db : Database}

/-! ## Failures of a session -/

/-- Whether an action submits something that is not appended, or is a sync that fails. -/
def Action.Fails (s : Session) (action : Action α) : Prop :=
  (∃ t ∈ action.submissions s, ∃ e, t.outcome = .error e) ∨
    action = .sync ∧ ∃ e, (act action s).1 = .ok (.error e)

/-- An action that fails latches the log and leaves the index as it was. -/
theorem Action.Fails.latched {action : Action α} (hfails : action.Fails s) (hs : s.Sound)
    (hdb : s.db = some db) : ∃ db', (act action s).2.db = some db' ∧ db'.index = db.index ∧
      Latched ⟨db', (act action s).2.machine⟩ := by
  rcases hfails with ⟨t, ht, hfails⟩ | ⟨rfl, e, hanswer⟩
  · have hkeeps := action.keepsOpen_of_submissions (List.ne_nil_of_mem ht)
    obtain ⟨db', hdb', hpublished⟩ := tracks_act tracks_published action (fun _ => published_sync) hkeeps hs hdb
    refine ⟨db', hdb', ?_, hpublished.latches ⟨t, ht, hfails⟩⟩
    -- The failed submission is the only one of the action, so the action has committed nothing.
    have hnone : (action.submissions s).filterMap Submission.commit? = [] := by
      obtain ⟨e, hfails⟩ := hfails
      have hone := action.length_submissions_le s
      match hts : action.submissions s, hone, ht with
      | [u], _, ht =>
        rw [List.mem_singleton.mp ht] at hfails
        rw [List.filterMap_cons_none (by rw [Submission.commit?, hfails])]
        rfl
    have hchained := hpublished.chained
    rw [hnone] at hchained
    exact hchained fun c hc => by cases hc
  · simp only [act, withoutValue, onDatabase, hdb] at hanswer ⊢
    cases hsync : Database.sync.run ⟨db, s.machine⟩ with
    | mk outcome after =>
      have hindex := index_sync ⟨db, s.machine⟩
      rw [hsync] at hanswer hindex
      cases outcome with
      | ok _ => cases hanswer
      | error cause => exact ⟨after.db, rfl, hindex, latched_of_sync_error hsync⟩

theorem commit_of_idle {h : Handle} (hidle : h.tx.pending = []) (hopen : h.tx.isClosed = false) :
    (Handle.commit.run h).1 = .ok () := by
  obtain ⟨tx, db, machine⟩ := h
  cases tx with
  | closed => cases hopen
  | reading => rfl
  | writing draft =>
    have hpending : draft.pending = [] := hidle
    rw [Handle.commit, Attempt.run_bind_ok (Handle.run_close_writing rfl)]
    simp only [hpending, List.isEmpty_nil, if_true, Attempt.run_pure]

/-- From any moment on at which a session has a database open, and for as long as it opens no other: the index is
the one of that moment with the batches of the successful commits applied in their order. A commit whose append fails
fails as the append does, closes the transaction and leaves the index. An action that has come to commit anything has
left no transaction that writes. And after a commit or a sync that has failed, every commit with something to commit
is refused, the index stays, and a transaction that has staged nothing sees it and commits. -/
theorem index_of_commits (setup : List (Action α)) (machine : Machine) (config : Config)
    (hreached : (run setup (start machine config)).2 = s) {first : Database} (hfirst : s.db = some first)
    (actions : List (Action α)) (hkeeps : ∀ action ∈ actions, action.KeepsOpen)
    (hsized : ∀ c ∈ commits actions s, ∀ r ∈ c.pending, r.Sized) :
    ∃ live, (run actions s).2.db = some live ∧
      (Index.replay (Commit.records (commits actions s))).run first.index = (.ok (), live.index) ∧
      (∀ (h : Handle) (draft : Draft) (e : Error) (after : Running), h.tx = .writing draft →
        draft.pending ≠ [] → h.submit draft = (.error e, after) →
        (Handle.commit.run h).1 = .error e ∧ (Handle.commit.run h).2.tx = .closed ∧
          (Handle.commit.run h).2.db.index = h.db.index) ∧
      (∀ action : Action α, action.submissions (run actions s).2 ≠ [] →
        (act action (run actions s).2).2.isWriting = false) ∧
      ∀ action : Action α, action.Fails (run actions s).2 →
        ∀ later : List (Action α), (∀ action ∈ later, action.KeepsOpen) →
          (∀ t ∈ submissions later (act action (run actions s).2).2,
            t.outcome = .error .latched ∧ t.index = live.index) ∧
          ∀ h : Handle, (run later (act action (run actions s).2).2).2.Offers h →
            h.db.index = live.index ∧ (h.tx.pending = [] →
              (∀ bucket, h.tx.visible h.db.index bucket = live.index.store? bucket) ∧
                (h.tx.isClosed = false → (Handle.commit.run h).1 = .ok ())) := by
  have hs : s.Sound := by
    rw [← hreached]
    exact sound_run setup (.start machine config)
  have hlive : (run actions s).2.Sound := sound_run actions hs
  obtain ⟨live, hdb, hpublished⟩ := tracks_run tracks_published published_sync actions hkeeps hs hfirst
  refine ⟨live, hdb, ?_, ?_, ?_, ?_⟩
  · have hchained := hpublished.chained
    rw [filterMap_submissions] at hchained
    exact (hchained hsized).replay
  · intro h draft e after htx hpending hsubmit
    obtain ⟨hfails, hindex, -⟩ := Handle.commit_of_submit_error htx hpending hsubmit
    exact ⟨hfails, Handle.tx_commit h, hindex⟩
  · intro action hsubmits
    exact isWriting_act_of_submissions action hlive hsubmits
  · intro action hfails later hlater
    obtain ⟨failed, hfailed, hindex, hlatched⟩ := hfails.latched hlive hdb
    have hsound := sound_act action hlive
    obtain ⟨last, hlast, hpublished⟩ := tracks_run tracks_published published_sync later hlater hsound hfailed
    obtain ⟨-, hsame, hrefused⟩ := hpublished.refuses hlatched
    have hstill : last.index = live.index := hsame.trans hindex
    refine ⟨fun t ht => ?_, fun h hoffers => ?_⟩
    · obtain ⟨houtcome, ht⟩ := hrefused t ht
      exact ⟨houtcome, ht.trans hindex⟩
    · have hdb := hoffers.db_eq
      rw [hlast] at hdb
      cases hdb
      refine ⟨hstill, fun hidle => ⟨fun bucket => ?_, commit_of_idle hidle⟩⟩
      rw [((sound_run later hsound).offered hoffers).visible_of_idle hidle, hstill]

/-! ## A file that fills up -/

/-- A machine with an empty log that takes one write and then has no room for more than three octets. -/
def fillingMachine : Machine :=
  ⟨Disk.fresh.put ["home", "work", "l"] (.regular ⟨[],
    ⟨fun n => if n = 0 then none else some (3, .noSpace), fun _ => none⟩, 0⟩), ⟨.still 100 0, []⟩⟩

/-- The session that has opened the log, and after that the one that has pushed one element. -/
def fillingStart : Session :=
  (run ([.reopen sampleConfig] : List (Action Unit)) (start fillingMachine sampleConfig)).2

def filledSession : Session := (run [samplePush [97]] fillingStart).2

set_option maxRecDepth 20000 in
theorem map_filling_commits : (commits [samplePush [97]] fillingStart).map (fun c => (c.txId, c.pending)) =
    [(1, [sampleRecord [97]])] := by
  cbv

set_option maxRecDepth 20000 in
theorem map_filled_submissions : ((samplePush [98]).submissions filledSession).map (fun t => t.outcome) =
    [.error (.io .noSpace)] := by
  cbv

theorem filled_fails : (samplePush [98]).Fails filledSession := by
  obtain ⟨t, rest, hsubmissions, houtcome, -⟩ := List.map_eq_cons_iff.mp map_filled_submissions
  exact Or.inl ⟨t, by rw [hsubmissions]; simp, _, houtcome⟩

/-- The push that finds no room installs nothing, and the one after it is refused. -/
theorem index_of_filling_pushes : ∃ first live, fillingStart.db = some first ∧ filledSession.db = some live ∧
    (Index.replay (Record.sealBatch 1 [sampleRecord [97]])).run first.index = (.ok (), live.index) ∧
    ∀ t ∈ submissions [samplePush [99]] (act (samplePush [98]) filledSession).2,
      t.outcome = .error .latched ∧ t.index = live.index := by
  obtain ⟨⟨_, _, index⟩, rest, hcommits, hone, hrest⟩ := List.map_eq_cons_iff.mp map_filling_commits
  cases hone
  rw [List.map_eq_nil_iff.mp hrest] at hcommits
  have hreached : (run ([.reopen sampleConfig] : List (Action Unit))
      (start fillingMachine sampleConfig)).2 = fillingStart := by
    rw [fillingStart]
  have hfilled : (run [samplePush [97]] fillingStart).2 = filledSession := by
    rw [filledSession]
  obtain ⟨first, hfirst⟩ : ∃ first, fillingStart.db = some first := Option.isSome_iff_exists.mp (by cbv)
  have hkeeps (element : Bytes) : ∀ action ∈ [samplePush element], action.KeepsOpen := by
    simp [samplePush, Action.KeepsOpen]
  have hsized : ∀ c ∈ commits [samplePush [97]] fillingStart, ∀ r ∈ c.pending, r.Sized := by
    rw [hcommits]
    simp [Record.Sized, sampleRecord]
  obtain ⟨live, hlive, hindex, -, -, hrefused⟩ := index_of_commits [.reopen sampleConfig] fillingMachine
    sampleConfig hreached hfirst [samplePush [97]] (hkeeps [97]) hsized
  rw [hfilled] at hlive hrefused
  rw [hcommits, Commit.records_cons, Commit.records_nil, List.append_nil] at hindex
  exact ⟨first, live, hfirst, hlive, hindex, (hrefused (samplePush [98]) filled_fails _ (hkeeps [99])).1⟩

end Session

end DurableLists

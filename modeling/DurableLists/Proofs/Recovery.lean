import DurableLists.Proofs.Session.Starts

/-!
# What a log recovers

Opening the log of a session again, at any moment of any run, gives the index that the session has
committed (`Session.open_recovers_index`), and reading it gives the transactions that the first opening met,
followed by the batches of the run (`Session.read_after_commits`). Both hold for every content that the
first opening can be made on, records left open in it included: their ids are below every id that is taken
later, so no later batch is joined to them.
-/

set_option autoImplicit false

namespace DurableLists

namespace Session

variable {α : Type} {machine machine' : Machine} {config : Config} {content : Bytes} {s : Session}
  {log : LoadedLog}

/-- At any moment of a run, opening the log again succeeds, whatever the clock then reads, and gives the
index that is committed at that moment. -/
theorem open_recovers_index (hstart : Starts machine config content s)
    (hread : (LoadedLog.read config.persistence.logPath).run machine = (.ok log, machine'))
    (hlast : log.lastTxId.toNat < maxTxId) (actions : List (Action α))
    (hstays : ∀ action ∈ actions, action.StaysOn config.persistence.logPath)
    (hfits : ∀ c ∈ commits actions s, ∀ r ∈ c.pending, Frame.Fits r)
    (hids : ∀ c ∈ commits actions s, c.txId.toNat < maxTxId)
    (again : Config) (henabled : again.persistence.enabled = true)
    (hpath : again.persistence.logPath = config.persistence.logPath) (env : Env) :
    ∃ db after, (Database.open again).run { (run actions s).2.machine with env } = (.ok db, after) ∧
      ∀ live, (run actions s).2.db = some live → db.index = live.index := by
  obtain ⟨place, kept, index, hbacked, -⟩ := hstart.backed_of_read hread hlast
  obtain ⟨⟨stop, hstop, -⟩, -⟩ := advances_run actions hbacked hstays ⟨hfits, Or.inr hids⟩
  have hstored := hstop.stored
  rw [← hpath] at hstored
  obtain ⟨db, after, hopen, -, hindex⟩ := Database.Stored.open
    (m := { (run actions s).2.machine with env }) hstored henabled
  refine ⟨db, after, hopen, fun live hlive => ?_⟩
  rw [hindex, (hstop.running live hlive).2]

theorem open_recovers_sample : ∃ db after live,
    (Database.open sampleConfig).run
      { (run sampleActions newLog).2.machine with env := ⟨.still 0 0, []⟩ } = (.ok db, after) ∧
      (run sampleActions newLog).2.db = some live ∧ db.index = live.index := by
  obtain ⟨live, hlive⟩ := Option.isSome_iff_exists.mp (congrArg Prod.snd newLog_run)
  obtain ⟨db, after, hopen, hindex⟩ := open_recovers_index newLog_starts (Prod.ext (by cbv) rfl) (by decide)
    sampleActions sampleActions_stay (fun c hc => (newLog_fits c hc).1) (fun c hc => (newLog_fits c hc).2)
    sampleConfig rfl rfl ⟨.still 0 0, []⟩
  exact ⟨db, after, live, hopen, hlive, hindex live hlive⟩

/-- Every reopening in a run succeeds, and the log is read at the end as the transactions that the first
opening met, followed by the batches of the commits, each whole and in the order of the commits. -/
theorem read_after_commits (hstart : Starts machine config content s)
    (hread : (LoadedLog.read config.persistence.logPath).run machine = (.ok log, machine'))
    (hlast : log.lastTxId.toNat < maxTxId) (actions : List (Action α))
    (hstays : ∀ action ∈ actions, action.StaysOn config.persistence.logPath)
    (hfits : ∀ c ∈ commits actions s, ∀ r ∈ c.pending, Frame.Fits r)
    (hids : ∀ c ∈ commits actions s, c.txId.toNat < maxTxId) :
    (∀ (i : Nat) (again : Config), actions[i]? = some (.reopen again) →
      (run actions s).1[i]? = some (.ok (.ok none))) ∧
    ∃ final after, (LoadedLog.read config.persistence.logPath).run (run actions s).2.machine =
        (.ok final, after) ∧
      final.transactions = log.transactions ++ (commits actions s).map Commit.batch := by
  obtain ⟨place, kept, index, hbacked, htransactions⟩ := hstart.backed_of_read hread hlast
  have hadmissible : Commit.Admissible kept (commits actions s) := ⟨hfits, Or.inr hids⟩
  refine ⟨reopen_answers actions hbacked hstays hadmissible, ?_⟩
  obtain ⟨⟨stop, hstop, -⟩, hseparate⟩ := advances_run actions hbacked hstays hadmissible
  have hsplits := Scan.splits_encodeAll hstop.stored.fits hstop.stored.settled
  obtain ⟨final, env, hfinal, hreleased, -⟩ :=
    LoadedLog.read_of_offers (Or.inl ⟨place, hstop.stored.holds⟩) hsplits
  refine ⟨final, _, hfinal, ?_⟩
  rw [hreleased, hseparate.transactions.1, htransactions]

/-- A closed record with one before it and one behind it that were never closed, and octets that are no frame. -/
def leftovers : Bytes :=
  Frame.encodeAll [loggedRecord 3 1 .uncommitted, sampleSealed, loggedRecord 9 8 .uncommitted] ++ [9, 9, 9]

def leftoverLog : Session := ((start (leaping (sampleMachine leftovers)) sampleConfig).reopen sampleConfig).2

theorem leftoverLog_starts : Starts (leaping (sampleMachine leftovers)) sampleConfig leftovers leftoverLog where
  enabled := rfl
  offers := Or.inl ⟨_, holds_sampleMachine leftovers⟩
  opened := Prod.ext (by cbv) rfl

set_option maxRecDepth 20000 in
theorem leftoverLog_commits :
    (commits sampleFront leftoverLog).map (fun c => (c.txId, c.pending)) = (sampleCommitted 10).take 2 := by
  cbv

/-- The reopening succeeds, and the records that were never closed are in no transaction. -/
theorem read_after_leftovers :
    (∀ (i : Nat) (again : Config), sampleFront[i]? = some (.reopen again) →
      (run sampleFront leftoverLog).1[i]? = some (.ok (.ok none))) ∧
    ∃ final after, (LoadedLog.read sampleConfig.persistence.logPath).run (run sampleFront leftoverLog).2.machine =
        (.ok final, after) ∧
      final.transactions = [[sampleSealed],
        Record.sealBatch 10 [sampleRecord [97], sampleRecord [98], stagedRecord .expire [53] 100],
        Record.sealBatch 11 [stagedRecord (.pop .head) [97] 100]] := by
  have hread : ((LoadedLog.read sampleConfig.persistence.logPath).run (leaping (sampleMachine leftovers))).1 =
      .ok ⟨[[sampleSealed]], 9, 96, 147⟩ := by cbv
  have hadmissible : ∀ p ∈ (sampleCommitted 10).take 2, (∀ r ∈ p.2, Frame.Fits r) ∧ p.1.toNat < maxTxId := by
    decide
  rw [← leftoverLog_commits] at hadmissible
  have hcommits := List.forall_mem_map.mp hadmissible
  obtain ⟨hreopen, final, after, hfinal, htransactions⟩ := read_after_commits leftoverLog_starts
    (Prod.ext hread rfl) (by decide) sampleFront
    (fun action haction => sampleActions_stay action (List.mem_append_left _ haction))
    (fun c hc => (hcommits c hc).1) (fun c hc => (hcommits c hc).2)
  refine ⟨hreopen, final, after, hfinal, ?_⟩
  rw [htransactions, Commit.map_batch_of_map leftoverLog_commits]
  rfl

end Session

end DurableLists

import DurableLists.Proofs.Grouping

/-!
# What a load cuts off

Every content of a log file either fails, on a given index, wherever it stands, and the file stays as it is, or
it splits and its transactions are replayed (`LoadedLog.load_fails_or_replays`). Then the file keeps the frames
that the transactions are made of, and what it loses are whole frames of uncommitted records and octets that are
no whole frame (`LoadedLog.cutsOpenTail_of_splits`). What is left is again a log with these transactions and
nothing behind them, so loading it once more changes no file (`LoadedLog.load_cuts_open_tail`).
-/

set_option autoImplicit false

namespace DurableLists

theorem Record.status_of_open {r : Record} (h : r.isCommitted = false) : r.status = .uncommitted := by
  cases hstatus : r.status with
  | uncommitted => rfl
  | committed =>
    rw [isCommitted, hstatus] at h
    cases h

namespace LoadedLog

variable {m : Machine} {path : String} {place : Location} {file : File} {index index' : Index}
  {kept dropped : List Record} {tail : Bytes}

/-! ## What is lost -/

/-- What a cut makes of a log that has been read from some content: the file at the path keeps the octets up to
the committed length, frames of which the transactions are made, and everything else is as it was. What is lost
are whole frames of uncommitted records, and then octets that are no whole frame. -/
structure CutsOpenTail (path : String) (place : Location) (content : Bytes) (log : LoadedLog) (d cut : Disk) :
    Prop where
  read : cut.read path = .ok (content.take log.committedLength)
  others : ∀ other, place ≠ other → cut.node? other = d.node? other
  parts : ∃ kept dropped tail, content.take log.committedLength = Frame.encodeAll kept ∧
    content.drop log.committedLength = Frame.encodeAll dropped ++ tail ∧
    (∀ r ∈ kept ++ dropped, Frame.Fits r) ∧ log.transactions = Record.groups kept ∧
    (∀ r ∈ dropped, r.status = .uncommitted) ∧ (Frame.decode tail).1 = .incomplete

theorem cutsOpenTail_of_splits {d cut : Disk} (hsplits : Scan.Splits file.content kept dropped tail)
    (hcut : d.CutTo path place file (Frame.encodeAll kept) cut) :
    CutsOpenTail path place file.content ⟨Scan.transactions kept, (Scan.after (kept ++ dropped)).lastTxId,
      (Frame.encodeAll kept).length, file.content.length⟩ d cut where
  read := by
    obtain ⟨asked, hleft⟩ := hcut.find
    rw [Disk.read_of_find hleft, hsplits.take_content]
  others := hcut.others
  parts := ⟨kept, dropped, tail, hsplits.take_content, hsplits.drop_content, hsplits.fits,
    Scan.transactions_eq_groups kept, fun r hr => Record.status_of_open (hsplits.dropped_open r hr),
    hsplits.tail_incomplete⟩

/-! ## Loading twice -/

/-- How many transactions and records a load has replayed. -/
def Stats.counts (stats : Stats) : Nat × Nat := (stats.transactions, stats.records)

/-- Whether another load on the index that a first load has had, whatever the clock reads now, ends as the first
did: with the same failure, or the same counts, and with the same index; all files stay as they are. -/
def Repeats (path : String) (index : Index) (first : Except Error Stats × Loading) : Prop :=
  ∀ env, let again := (load path).run ⟨index, { first.2.machine with env }⟩
    again.1.map Stats.counts = first.1.map Stats.counts ∧ again.2.index = first.2.index ∧
      again.2.machine.disk = first.2.machine.disk

/-- A content fails on an index wherever it stands in a file at a path, or it splits and is replayed. -/
theorem load_fails_or_replays (path : String) (place : Location) (file : File) (index : Index) :
    (∃ e index', ∀ m : Machine, m.disk.find path = .ok (place, .regular file) →
      ∃ env, (load path).run ⟨index, m⟩ = (.error e, ⟨index', { m with env }⟩)) ∨
    ∃ kept dropped tail index', Scan.Splits file.content kept dropped tail ∧
      (Index.replay (Scan.transactions kept).flatten).run index = (.ok (), index') := by
  rcases Scan.exists_splits Disk.chunkSize (by decide) file.content with
    ⟨cause, hcorrupt⟩ | ⟨kept, dropped, tail, hsplits⟩
  · exact Or.inl ⟨.logCorrupted cause, index, fun m hfind => load_corrupt hfind hcorrupt⟩
  · cases hreplay : (Index.replay (Scan.transactions kept).flatten).run index with
    | mk outcome index' =>
      cases outcome with
      | error e => exact Or.inl ⟨e, index', fun m hfind => load_replay_error hfind hsplits hreplay⟩
      | ok _ => exact Or.inr ⟨kept, dropped, tail, index', hsplits, hreplay⟩

theorem repeats_of_fails {e : Error} (hfind : m.disk.find path = .ok (place, .regular file))
    (hfails : ∀ m : Machine, m.disk.find path = .ok (place, .regular file) →
      ∃ env, (load path).run ⟨index, m⟩ = (.error e, ⟨index', { m with env }⟩)) (env : Env) :
    Repeats path index (.error e, ⟨index', { m with env }⟩) := by
  intro later
  obtain ⟨last, hagain⟩ := hfails { m with env := later } hfind
  rw [hagain]
  exact ⟨rfl, rfl, rfl⟩

/-- Nothing stands behind the closed transactions once the file has been cut, so the second load asks for no
sync. -/
theorem repeats_of_cutTo {d : Disk} {after : Machine} (hsplits : Scan.Splits file.content kept dropped tail)
    (hreplay : (Index.replay (Scan.transactions kept).flatten).run index = (.ok (), index'))
    (hcut : d.CutTo path place file (Frame.encodeAll kept) after.disk) (lastTxId : UInt64) :
    Repeats path index (.ok ⟨(Scan.transactions kept).length, (Scan.transactions kept).flatten.length, lastTxId⟩,
      ⟨index', after⟩) := by
  intro env
  obtain ⟨asked, hleft⟩ := hcut.find
  have hsettled : Scan.Splits (Frame.encodeAll kept) kept [] [] :=
    Scan.splits_encodeAll (fun r hr => hsplits.fits r (List.mem_append_left _ hr)) hsplits.settled
  obtain ⟨last, hagain, hkept⟩ := load_of_splits (m := { after with env }) hleft (fun hne => absurd rfl hne)
    hsettled hreplay
  rw [hagain]
  exact ⟨rfl, rfl, hkept.unchanged rfl⟩

/-- A load of any content on any index fails and leaves the files as they are, or it cuts off the open tail of
the log that it has read, and loading again on that index ends alike. Only if the sync after the cut is refused,
the load fails although the file has been cut. -/
theorem load_cuts_open_tail (hfind : m.disk.find path = .ok (place, .regular file)) (index : Index) :
    ∃ outcome index' after, (load path).run ⟨index, m⟩ = (outcome, ⟨index', after⟩) ∧
      ((∃ e, outcome = .error e ∧ after.disk = m.disk ∧ Repeats path index (outcome, ⟨index', after⟩)) ∨
        ∃ log env, (read path).run m = (.ok log, { m with env }) ∧
          CutsOpenTail path place file.content log m.disk after.disk ∧
          ((outcome = .ok ⟨log.transactions.length, log.recordCount, log.lastTxId⟩ ∧
              Repeats path index (outcome, ⟨index', after⟩)) ∨
            ∃ cause, file.answers.sync file.asked = some cause ∧ outcome = .error (.io cause))) := by
  rcases load_fails_or_replays path place file index with
    ⟨e, index', hfails⟩ | ⟨kept, dropped, tail, index', hsplits, hreplay⟩
  · obtain ⟨env, hload⟩ := hfails m hfind
    exact ⟨_, _, _, hload, Or.inl ⟨e, rfl, rfl, repeats_of_fails hfind hfails env⟩⟩
  · obtain ⟨env, hread⟩ := read_of_splits hfind hsplits
    obtain ⟨outcome, after, hload, hcut, hend⟩ := load_ends hfind hsplits hreplay
    refine ⟨outcome, index', after, hload, Or.inr ⟨_, env, hread, cutsOpenTail_of_splits hsplits hcut, ?_⟩⟩
    rcases hend with rfl | ⟨cause, -, hsync, rfl⟩
    · exact Or.inl ⟨rfl, repeats_of_cutTo hsplits hreplay hcut _⟩
    · exact Or.inr ⟨cause, hsync, rfl⟩

end LoadedLog

namespace Session

/-- A committed record, an open one, and three octets of a frame: the first frame is kept. -/
theorem load_sample_cuts_tail :
    let content := Frame.encode sampleSealed ++ Frame.encode (loggedRecord 9 8 .uncommitted) ++ [9, 9, 9]
    let path := sampleConfig.persistence.logPath
    ∃ index after, (LoadedLog.load path).run ⟨∅, sampleMachine content⟩ = (.ok ⟨1, 1, 9⟩, ⟨index, after⟩) ∧
      after.disk.read path = .ok (Frame.encode sampleSealed) ∧
      LoadedLog.Repeats path ∅ (.ok ⟨1, 1, 9⟩, ⟨index, after⟩) := by
  intro content path
  obtain ⟨file, hfind, hcontent, hreliable⟩ := holds_sampleMachine content
  have hsplits : Scan.Splits file.content [sampleSealed] [loggedRecord 9 8 .uncommitted] [9, 9, 9] := {
    content_eq := by
      rw [hcontent, List.singleton_append, Frame.encodeAll_cons, Frame.encodeAll_cons, Frame.encodeAll_nil,
        List.append_nil]
    fits := by decide
    settled := rfl
    dropped_open := by decide
    tail_incomplete := rfl }
  have hreplay : (Index.replay (Scan.transactions [sampleSealed]).flatten).run ∅ =
      (.ok (), ((Index.replay (Scan.transactions [sampleSealed]).flatten).run ∅).2) := Prod.ext (by cbv) rfl
  obtain ⟨machine, hloaded, -⟩ := LoadedLog.load_of_splits hfind (fun _ => hreliable.2 _) hsplits hreplay
  obtain ⟨env, hread⟩ := LoadedLog.read_of_splits hfind hsplits
  obtain ⟨outcome, index, after, hload, ⟨e, rfl, -⟩ | ⟨log, env', hread', hcuts, hend⟩⟩ :=
    LoadedLog.load_cuts_open_tail hfind ∅
  · rw [hloaded] at hload
    cases hload
  · rw [hread] at hread'
    cases hread'
    rcases hend with ⟨rfl, hrepeats⟩ | ⟨cause, hsync, -⟩
    · have hcut := hcuts.read
      rw [hsplits.take_content, Frame.encodeAll_cons, Frame.encodeAll_nil, List.append_nil] at hcut
      exact ⟨index, after, hload, hcut, hrepeats⟩
    · rw [hreliable.2] at hsync
      cases hsync

end Session

end DurableLists

import DurableLists.Proofs.Attempt
import DurableLists.Proofs.Log.Batches
import DurableLists.Proofs.Disk.Reliable

/-!
# Loading a log

Every content of a file either is corrupt or splits into the records up to the last closing one, open
records, and a rest that is no whole frame (`Scan.exists_splits`). Loading a log replays the transactions
of the first part and cuts the file to the frames of it (`LoadedLog.load_ends`). A load that meets a corrupt
log, or a record that cannot be replayed, fails and leaves the files as they are (`LoadedLog.load_corrupt`,
`LoadedLog.load_replay_error`).
-/

set_option autoImplicit false

namespace DurableLists

namespace Scan

/-- How a content is a log: the records up to the last closing one, the open records after it, and a rest
that is no whole frame. -/
structure Splits (content : Bytes) (kept dropped : List Record) (tail : Bytes) : Prop where
  content_eq : content = Frame.encodeAll (kept ++ dropped) ++ tail
  fits : ∀ r ∈ kept ++ dropped, Frame.Fits r
  settled : Settled kept
  dropped_open : ∀ r ∈ dropped, r.isCommitted = false
  tail_incomplete : (Frame.decode tail).1 = .incomplete

theorem splits_encodeAll {rs : List Record} (hfits : ∀ r ∈ rs, Frame.Fits r) (hsettled : Settled rs) :
    Splits (Frame.encodeAll rs) rs [] [] where
  content_eq := by rw [List.append_nil, List.append_nil]
  fits := by rwa [List.append_nil]
  settled := hsettled
  dropped_open := by simp
  tail_incomplete := rfl

theorem splits_nil : Splits [] [] [] [] :=
  splits_encodeAll (fun _ hr => absurd hr List.not_mem_nil) rfl

theorem Splits.take_content {content tail : Bytes} {kept dropped : List Record}
    (h : Splits content kept dropped tail) :
    content.take (Frame.encodeAll kept).length = Frame.encodeAll kept := by
  rw [h.content_eq, Frame.encodeAll_append, List.append_assoc, List.take_left]

theorem Splits.drop_content {content tail : Bytes} {kept dropped : List Record}
    (h : Splits content kept dropped tail) :
    content.drop (Frame.encodeAll kept).length = Frame.encodeAll dropped ++ tail := by
  rw [h.content_eq, Frame.encodeAll_append, List.append_assoc, List.drop_left]

theorem Splits.records_decodeAll {content tail : Bytes} {kept dropped : List Record}
    (h : Splits content kept dropped tail) : (Frame.decodeAll content).records = kept ++ dropped := by
  rw [h.content_eq, Frame.decodeAll_encodeAll_append _ tail h.fits, Frame.decodeAll_incomplete h.tail_incomplete]
  exact List.append_nil _

theorem Splits.eq_nil {kept dropped : List Record} {tail : Bytes} (h : Splits [] kept dropped tail) :
    kept = [] ∧ dropped = [] := by
  have hcontent := h.content_eq
  rw [eq_comm, List.append_eq_nil_iff] at hcontent
  cases hrs : kept ++ dropped with
  | nil => exact List.append_eq_nil_iff.mp hrs
  | cons r rs =>
    rw [hrs, Frame.encodeAll_cons, List.append_eq_nil_iff] at hcontent
    exact absurd hcontent.1.1 (Frame.encode_ne_nil r)

/-- Every content is corrupt or splits. -/
theorem exists_splits (size : Nat) (hsize : size ≠ 0) (content : Bytes) :
    (∃ cause, (start.readAll (Disk.chunks size content)).1 = some cause) ∨
      ∃ kept dropped tail, Splits content kept dropped tail := by
  have hchunks := flatten_chunks size hsize content
  obtain ⟨rs, tail, hcontent, hfits, htail | ⟨cause, htail⟩⟩ := Frame.exists_encodeAll_append content
  · obtain ⟨kept, dropped, rfl, hsettled, hopen⟩ := exists_settled_append rs hfits
    exact Or.inr ⟨kept, dropped, tail, hcontent, hfits, hsettled, hopen, htail⟩
  · exact Or.inl ⟨cause, readAll_frames_corrupt (hchunks.trans hcontent) hfits htail⟩

theorem readAll_of_splits {content tail : Bytes} {kept dropped : List Record}
    (h : Splits content kept dropped tail) (size : Nat) (hsize : size ≠ 0) :
    ∃ scan, start.readAll (Disk.chunks size content) = (none, scan) ∧
      scan.log = ⟨transactions kept, (after (kept ++ dropped)).lastTxId, (Frame.encodeAll kept).length,
        content.length⟩ := by
  have hchunks := flatten_chunks size hsize content
  refine ⟨_, readAll_frames (hchunks.trans h.content_eq) h.fits h.tail_incomplete, ?_⟩
  have htransactions := transactions_append_open kept dropped h.dropped_open
  have hlength := committedLength_append_open kept dropped h.dropped_open
  rw [h.settled] at hlength
  simp only [transactions, log] at htransactions
  simp only [log, transactions, through, withBuffer, withLength, steps, List.foldl_nil, htransactions, hlength,
    hchunks]

end Scan

theorem Disk.read_of_find {d : Disk} {path : String} {place : Location} {file : File}
    (h : d.find path = .ok (place, .regular file)) : d.read path = .ok file.content := by
  have hchunks := Scan.flatten_chunks Disk.chunkSize (by decide) file.content
  simp only [Disk.read, h, bind, Except.bind, Disk.readChunks, pure, Except.pure, hchunks]

theorem Disk.Holds.read {d : Disk} {path : String} {place : Location} {content : Bytes}
    (h : d.Holds path place content) : d.read path = .ok content := by
  obtain ⟨file, hfind, rfl, -⟩ := h
  exact Disk.read_of_find hfind

/-- What is left of the files when the log at a path has been cut to some content: the log at its place, and
everything else as it was. -/
structure Disk.CutTo (path : String) (place : Location) (file : File) (content : Bytes) (d cut : Disk) : Prop where
  find : ∃ asked, cut.find path = .ok (place, .regular ⟨content, file.answers, asked⟩)
  others : ∀ other, place ≠ other → cut.node? other = d.node? other
  unchanged : file.content = content → cut = d

theorem Disk.CutTo.holds {path : String} {place : Location} {file : File} {content : Bytes} {d cut : Disk}
    (h : CutTo path place file content d cut) (hfile : file.Reliable) : cut.Holds path place content := by
  obtain ⟨asked, hfind⟩ := h.find
  exact ⟨_, hfind, rfl, hfile⟩

/-! ## Parts of a load -/

theorem LoadedLog.Loading.run_onMachine {α : Type} {call : Attempt Machine α} {m m' : Machine}
    {outcome : Except Error α} (index : Index) (h : call.run m = (outcome, m')) :
    (Loading.onMachine call).run ⟨index, m⟩ = (outcome, ⟨index, m'⟩) := by
  rw [Loading.onMachine, Attempt.run_onPart, h]

theorem LoadedLog.Loading.run_onIndex {α : Type} {call : Attempt Index α} {index index' : Index}
    {outcome : Except Error α} (m : Machine) (h : call.run index = (outcome, index')) :
    (Loading.onIndex call).run ⟨index, m⟩ = (outcome, ⟨index', m⟩) := by
  rw [Loading.onIndex, Attempt.run_onPart, h]

namespace LoadedLog

variable {m : Machine} {path : String} {place : Location} {content : Bytes} {file : File} {index index' : Index}
  {kept dropped : List Record} {tail : Bytes}

/-! ## Reading -/

/-- Reads a log that comes in the given chunks. -/
def ofChunks (chunks : List Bytes) : Attempt Machine LoadedLog := do
  let (fault, scan) := Scan.start.readAll chunks
  Machine.onEnv (Env.emitAll scan.closings)
  match fault with
  | some cause => throw (.logCorrupted cause)
  | none =>
    Machine.onEnv (Env.emitAll scan.leftovers)
    return scan.log

theorem run_read_chunks {node : Node} {chunks : List Bytes} (h : m.disk.find path = .ok (place, node))
    (hchunks : Disk.readChunks node = .ok chunks) : (read path).run m = (ofChunks chunks).run m := by
  rw [read, Attempt.run_bind_ok (Attempt.run_get m)]
  simp only [h, hchunks]
  rfl

theorem run_read (h : m.disk.find path = .ok (place, .regular file)) :
    (read path).run m = (ofChunks (Disk.chunks Disk.chunkSize file.content)).run m :=
  run_read_chunks h rfl

theorem run_ofChunks {chunks : List Bytes} {scan : Scan} (m : Machine)
    (h : Scan.start.readAll chunks = (none, scan)) :
    ∃ env, (ofChunks chunks).run m = (.ok scan.log, { m with env }) := by
  rw [ofChunks, h]
  exact ⟨_, rfl⟩

theorem run_ofChunks_corrupt {chunks : List Bytes} {cause : Corruption} (m : Machine)
    (h : (Scan.start.readAll chunks).1 = some cause) :
    ∃ env, (ofChunks chunks).run m = (.error (.logCorrupted cause), { m with env }) := by
  obtain ⟨scan, hread⟩ : ∃ scan, Scan.start.readAll chunks = (some cause, scan) := ⟨_, Prod.ext h rfl⟩
  rw [ofChunks, hread]
  exact ⟨_, rfl⟩

theorem read_of_holds (h : m.disk.Holds path place content) {scan : Scan}
    (hread : Scan.start.readAll (Disk.chunks Disk.chunkSize content) = (none, scan)) :
    ∃ env, (read path).run m = (.ok scan.log, { m with env }) := by
  obtain ⟨file, hfind, rfl, -⟩ := h
  rw [run_read hfind]
  exact run_ofChunks m hread

theorem read_of_splits (h : m.disk.find path = .ok (place, .regular file))
    (hsplits : Scan.Splits file.content kept dropped tail) :
    ∃ env, (read path).run m = (.ok ⟨Scan.transactions kept, (Scan.after (kept ++ dropped)).lastTxId,
      (Frame.encodeAll kept).length, file.content.length⟩, { m with env }) := by
  obtain ⟨scan, hscan, hlog⟩ := Scan.readAll_of_splits hsplits Disk.chunkSize (by decide)
  rw [run_read h, ← hlog]
  exact run_ofChunks m hscan

theorem read_missing (h : m.disk.find path = .error .notFound) :
    ∃ env, (read path).run m = (.ok .empty, { m with env }) := by
  rw [read, Attempt.run_bind_ok (Attempt.run_get m)]
  simp only [h]
  exact ⟨_, rfl⟩

/-- What is read of a log that is there or missing. -/
theorem read_of_offers (h : m.disk.Offers path content) (hsplits : Scan.Splits content kept dropped tail) :
    ∃ log env, (read path).run m = (.ok log, { m with env }) ∧ log.transactions = Scan.transactions kept ∧
      log.lastTxId = (Scan.after (kept ++ dropped)).lastTxId := by
  rcases h with ⟨place, file, hfind, rfl, -⟩ | ⟨rfl, hfind, -⟩
  · obtain ⟨env, hread⟩ := read_of_splits hfind hsplits
    exact ⟨_, env, hread, rfl, rfl⟩
  · obtain ⟨rfl, rfl⟩ := hsplits.eq_nil
    obtain ⟨env, hread⟩ := read_missing hfind
    exact ⟨.empty, env, hread, rfl, rfl⟩

/-! ## Cutting -/

/-- A file is cut to its first octets also when the sync that follows is refused. -/
theorem cut_of_find (h : m.disk.find path = .ok (place, .regular file)) (length : Nat) :
    ∃ disk, (cut path length).run m =
        ((file.answers.sync file.asked).elim (.ok ()) (.error <| .io ·), { m with disk }) ∧
      disk.find path = .ok (place, .regular ⟨file.content.take length, file.answers, file.asked + 1⟩) ∧
      ∀ other, place ≠ other → disk.node? other = m.disk.node? other := by
  obtain ⟨-, hnode, -⟩ := Disk.regular_of_find h
  have htruncate : m.disk.truncate place length =
      m.disk.put place (.regular { file with content := file.content.take length }) := by
    rw [Disk.truncate, hnode]
  have hfind := Disk.find_put h { file with content := file.content.take length }
  have hforce : (m.disk.truncate place length).sync place = (file.answers.sync file.asked,
      (m.disk.truncate place length).put place
        (.regular ⟨file.content.take length, file.answers, file.asked + 1⟩)) := by
    rw [Disk.sync, htruncate, Disk.node?_put_self]
  have hrun := Attempt.run_ofFn (fun m : Machine =>
    ((.ok ((m.disk.truncate place length).sync place).1 : Except Error (Option IoError)),
      { m with disk := ((m.disk.truncate place length).sync place).2 })) m
  refine ⟨_, ?_, Disk.find_put (htruncate ▸ hfind) _, fun other hother => ?_⟩
  · rw [cut, Attempt.run_bind_ok (Attempt.run_get m)]
    simp only [h]
    rw [Attempt.run_bind_ok hrun]
    simp only [hforce]
    cases file.answers.sync file.asked <;> rfl
  · rw [Disk.node?_put_of_ne _ _ hother, htruncate, Disk.node?_put_of_ne _ _ hother]

/-! ## Loading -/

theorem run_load {log : LoadedLog} {env : Env} {next : LoadedLog → Attempt Loading Stats}
    (hread : (read path).run (m.report (.logLoading path)) = (.ok log, { m with env })) :
    (do
      Loading.onMachine (Machine.onEnv (Env.emit (.logLoading path)))
      let log ← Loading.onMachine (read path)
      next log).run ⟨index, m⟩ = (next log).run ⟨index, { m with env }⟩ := by
  rw [Attempt.run_bind_ok (Loading.run_onMachine index (m.run_emit (.logLoading path))),
    Attempt.run_bind_ok (Loading.run_onMachine index hread)]

/-- A log that splits and is replayed is cut to the frames of its closed transactions. A file that has no more
than these is not asked to sync; else the load fails if the sync is refused. -/
theorem load_ends (h : m.disk.find path = .ok (place, .regular file))
    (hsplits : Scan.Splits file.content kept dropped tail)
    (hreplay : (Index.replay (Scan.transactions kept).flatten).run index = (.ok (), index')) :
    ∃ outcome machine, (load path).run ⟨index, m⟩ = (outcome, ⟨index', machine⟩) ∧
      m.disk.CutTo path place file (Frame.encodeAll kept) machine.disk ∧
      (outcome = .ok ⟨(Scan.transactions kept).length, (Scan.transactions kept).flatten.length,
          (Scan.after (kept ++ dropped)).lastTxId⟩ ∨
        ∃ cause, file.content ≠ Frame.encodeAll kept ∧ file.answers.sync file.asked = some cause ∧
          outcome = .error (.io cause)) := by
  obtain ⟨env, hread⟩ := read_of_splits (m := m.report (.logLoading path)) h hsplits
  have hreplay' := Loading.run_onIndex { m with env } hreplay
  have hkept := hsplits.take_content
  rw [load, run_load hread]
  simp only [records]
  rw [Attempt.run_bind_ok hreplay']
  split
  · rename_i hlonger
    have hne : file.content ≠ Frame.encodeAll kept := by
      intro hsame
      rw [hsame] at hlonger
      exact absurd hlonger (Nat.lt_irrefl _)
    obtain ⟨disk, hcut, hfind, hothers⟩ := cut_of_find
      (m := ({ m with env } : Machine).report (.logTruncated file.content.length (Frame.encodeAll kept).length))
      h (Frame.encodeAll kept).length
    have hcutTo : m.disk.CutTo path place file (Frame.encodeAll kept) disk :=
      ⟨⟨_, hkept ▸ hfind⟩, hothers, fun hsame => absurd hsame hne⟩
    have hreported := (Machine.run_emit_bind { m with env }
      (.logTruncated file.content.length (Frame.encodeAll kept).length)
      (cut path (Frame.encodeAll kept).length)).trans hcut
    cases hsync : file.answers.sync file.asked with
    | none =>
      rw [hsync] at hreported
      rw [Attempt.run_bind_ok (Loading.run_onMachine index' hreported)]
      exact ⟨_, _, rfl, hcutTo, Or.inl rfl⟩
    | some cause =>
      rw [hsync] at hreported
      rw [Attempt.run_bind_error (Loading.run_onMachine index' hreported)]
      exact ⟨_, _, rfl, hcutTo, Or.inr ⟨cause, hne, rfl, rfl⟩⟩
  · rename_i hwhole
    have hlength : file.content.length ≤ (Frame.encodeAll kept).length := by simpa using hwhole
    rw [List.take_of_length_le hlength] at hkept
    exact ⟨_, _, rfl, ⟨⟨file.asked, by rw [← hkept]; exact h⟩, fun _ _ => rfl, fun _ => rfl⟩, Or.inl rfl⟩

theorem load_of_splits (h : m.disk.find path = .ok (place, .regular file))
    (hsync : file.content ≠ Frame.encodeAll kept → file.answers.sync file.asked = none)
    (hsplits : Scan.Splits file.content kept dropped tail)
    (hreplay : (Index.replay (Scan.transactions kept).flatten).run index = (.ok (), index')) :
    ∃ machine, (load path).run ⟨index, m⟩ = (.ok ⟨(Scan.transactions kept).length,
        (Scan.transactions kept).flatten.length, (Scan.after (kept ++ dropped)).lastTxId⟩,
        ⟨index', machine⟩) ∧
      m.disk.CutTo path place file (Frame.encodeAll kept) machine.disk := by
  obtain ⟨outcome, machine, hload, hcut, rfl | ⟨cause, hne, hrefused, -⟩⟩ := load_ends h hsplits hreplay
  · exact ⟨machine, hload, hcut⟩
  · rw [hsync hne] at hrefused
    cases hrefused

theorem load_replay_error (h : m.disk.find path = .ok (place, .regular file))
    (hsplits : Scan.Splits file.content kept dropped tail) {e : Error}
    (hreplay : (Index.replay (Scan.transactions kept).flatten).run index = (.error e, index')) :
    ∃ env, (load path).run ⟨index, m⟩ = (.error e, ⟨index', { m with env }⟩) := by
  obtain ⟨env, hread⟩ := read_of_splits (m := m.report (.logLoading path)) h hsplits
  refine ⟨env, ?_⟩
  rw [load, run_load hread]
  simp only [records]
  rw [Attempt.run_bind_error (Loading.run_onIndex { m with env } hreplay)]

theorem load_corrupt (h : m.disk.find path = .ok (place, .regular file)) {cause : Corruption}
    (hread : (Scan.start.readAll (Disk.chunks Disk.chunkSize file.content)).1 = some cause) :
    ∃ env, (load path).run ⟨index, m⟩ = (.error (.logCorrupted cause), ⟨index, { m with env }⟩) := by
  obtain ⟨env, hrun⟩ := run_ofChunks_corrupt (m.report (.logLoading path)) hread
  rw [← run_read (m := m.report (.logLoading path)) h] at hrun
  refine ⟨env, ?_⟩
  rw [load, Attempt.run_bind_ok (Loading.run_onMachine index (m.run_emit (.logLoading path))),
    Attempt.run_bind_error (Loading.run_onMachine index hrun)]
  rfl

theorem load_missing (h : m.disk.find path = .error .notFound) :
    ∃ stats env, (load path).run ⟨∅, m⟩ = (.ok stats, ⟨∅, { m with env }⟩) ∧ stats.lastTxId = 0 := by
  obtain ⟨env, hread⟩ := read_missing (m := m.report (.logLoading path)) h
  refine ⟨⟨0, 0, 0⟩, { env with trace := .logLoaded 0 0 :: env.trace }, ?_, rfl⟩
  rw [load, run_load hread]
  rfl

end LoadedLog

end DurableLists

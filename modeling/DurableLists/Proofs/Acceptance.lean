import DurableLists.Proofs.Latching
import DurableLists.Proofs.OpenTail
import DurableLists.Proofs.Database.Backed

/-!
# What a log takes and what is read back

An append checks that the writer has not been latched and that the file takes the octets. It does not look at the size
of the records, and the length field of a frame keeps 32 bits of it (`Frame.field_length_encode_append`). So an append
that answers well has brought the batch to the file, and whether it is read back is decided by the records alone: it is
if there are any and all fit (`Writer.append_exact`). A record of which the length field keeps too little makes the
whole log unreadable (`LoadedLog.read_cut_length`).
-/

set_option autoImplicit false

namespace DurableLists

/-! ## Records that fit and others -/

namespace Frame

/-- The length that a frame announces is cut to 32 bits. -/
theorem field_length_encode_append (r : Record) (rest : Bytes) :
    field 4 4 (encode r ++ rest) = (body r).length % UInt32.size := by
  have hlength : Bytes.ofLE (Bytes.toLE 4 (body r).length) = (body r).length % UInt32.size := Bytes.ofLE_toLE 4 _
  rw [encode_eq_withChecksum, withChecksum]
  simp only [List.append_assoc]
  rw [field_skip _ _ _ _ _ (Nat.le_refl 4), Nat.sub_self, field, List.drop_zero,
    List.take_left' (Bytes.length_toLE 4 _), hlength]

/-- Where too little is left of the length of a record, its frame is taken for none. -/
theorem decode_encode_append_cut {r : Record} (hcut : (body r).length % UInt32.size < fixedLength) (rest : Bytes) :
    decode (encode r ++ rest) =
      (.corrupt (.shortBody ((body r).length % UInt32.size)), encode r ++ rest) := by
  have hshort : Short (encode r ++ rest) := by
    rw [Short, field_length_encode_append, List.length_append, length_encode]
    exact ⟨by omega, hcut⟩
  rw [decode_of_short hshort, field_length_encode_append]

end Frame

/-! ## Reading and loading -/

namespace LoadedLog

variable {m m' : Machine} {path : String} {place : Location} {file : File} {index : Index}

/-- A log that has been read splits. -/
theorem of_run_read {log : LoadedLog} (hfind : m.disk.find path = .ok (place, .regular file))
    (hread : (read path).run m = (.ok log, m')) :
    ∃ kept dropped tail, Scan.Splits file.content kept dropped tail ∧ log.transactions = Scan.transactions kept := by
  rcases Scan.exists_splits Disk.chunkSize (by decide) file.content with
    ⟨cause, hcorrupt⟩ | ⟨kept, dropped, tail, hsplits⟩
  · obtain ⟨env, hrun⟩ := run_ofChunks_corrupt m hcorrupt
    rw [run_read hfind, hrun] at hread
    cases hread
  · obtain ⟨env, hrun⟩ := read_of_splits hfind hsplits
    rw [hrun] at hread
    cases hread
    exact ⟨kept, dropped, tail, hsplits, rfl⟩

/-- Every record that is read of a log fits. -/
theorem fits_of_run_read {log : LoadedLog} (hfind : m.disk.find path = .ok (place, .regular file))
    (hread : (read path).run m = (.ok log, m')) {batch : List Record} (hbatch : batch ∈ log.transactions) :
    ∀ r ∈ batch, Frame.Fits r := by
  obtain ⟨kept, dropped, tail, hsplits, htransactions⟩ := of_run_read hfind hread
  rw [htransactions, Scan.transactions_eq_groups] at hbatch
  exact fun r hr => hsplits.fits r (List.mem_append_left _ (Record.mem_of_mem_groups hbatch hr))

/-- A load that answers has cut the log to the frames of its transactions. -/
theorem of_run_load {stats : Stats} {loading : Loading} (hfind : m.disk.find path = .ok (place, .regular file))
    (hload : (load path).run ⟨index, m⟩ = (.ok stats, loading)) :
    ∃ kept dropped tail, Scan.Splits file.content kept dropped tail ∧
      m.disk.CutTo path place file (Frame.encodeAll kept) loading.machine.disk := by
  rcases load_fails_or_replays path place file index with
    ⟨e, index', hfails⟩ | ⟨kept, dropped, tail, index', hsplits, hreplay⟩
  · obtain ⟨env, hrun⟩ := hfails m hfind
    rw [hrun] at hload
    cases hload
  · obtain ⟨outcome, after, hrun, hcut, -⟩ := load_ends hfind hsplits hreplay
    rw [hrun] at hload
    cases hload
    exact ⟨kept, dropped, tail, hsplits, hcut⟩

/-- A frame whose length has been cut to less than a body takes makes the log that holds it unreadable. -/
theorem read_cut_length {rs : List Record} {r : Record} {rest : Bytes}
    (hfind : m.disk.find path = .ok (place, .regular file))
    (hcontent : file.content = Frame.encodeAll rs ++ (Frame.encode r ++ rest)) (hfits : ∀ t ∈ rs, Frame.Fits t)
    (hcut : (Frame.body r).length % UInt32.size < Frame.fixedLength) :
    ∃ env, (read path).run m =
      (.error (.logCorrupted (.shortBody ((Frame.body r).length % UInt32.size))), { m with env }) := by
  have hchunks := (Scan.flatten_chunks Disk.chunkSize (by decide) file.content).trans hcontent
  have hcorrupt := Scan.readAll_frames_corrupt hchunks hfits
    (congrArg Prod.fst (Frame.decode_encode_append_cut hcut rest))
  rw [run_read hfind]
  exact run_ofChunks_corrupt m hcorrupt

end LoadedLog

/-! ## Appending and reading -/

namespace Writer

/-- Whether a writer has been opened on a path, at some time, on some files. It may have been used since. -/
def Opened (path : String) (w : Writer) : Prop :=
  ∃ (config : Persistence) (machine opened : Machine) (first : Writer) (uses : List Use), config.logPath = path ∧
    (Writer.open config).run machine = (.ok first, opened) ∧ (follow uses ⟨first, opened⟩).2.writer = w

/-- A writer that has been opened and is not latched is ready. -/
theorem Opened.ready {path : String} {w : Writer} (h : w.Opened path) (hunlatched : w.readOnly = false) :
    w.Ready w.place := by
  obtain ⟨config, machine, opened, first, uses, -, hopen, rfl⟩ := h
  have hopened : Intact first.place opened.disk [] ⟨first, opened⟩ := ⟨ready_of_run_open hopen, .refl⟩
  obtain ⟨⟨hplace, hbuffer, hreadOnly⟩, -⟩ := hopened.follow (Prod.ext rfl rfl) hunlatched
  exact ⟨rfl, hbuffer, hreadOnly⟩

variable {w : Writer} {path : String} {m : Machine} {file : File} {index : Index} {s s' : State}
  {txId : UInt64} {rs : List Record}

/-- An append that answers well has brought the frames of the batch to the end of the file. -/
theorem find_of_append_ok (hwriter : s.writer.Opened path)
    (hfind : s.machine.disk.find path = .ok (s.writer.place, .regular file))
    (happend : (append rs).run s = (.ok (), s')) :
    ∃ last : File, s'.machine.disk.find path = .ok (s.writer.place, .regular last) ∧
      last.content = file.content ++ Frame.encodeAll rs := by
  have hunlatched : s.writer.readOnly = false := by
    rw [← Bool.not_eq_true]
    intro hlatched
    rw [append_of_readOnly hlatched] at happend
    cases happend
  have hintact : Intact s.writer.place s.machine.disk [] s := ⟨hwriter.ready hunlatched, .refl⟩
  exact (hintact.append happend).takes.find hfind

/-- A file that takes every request takes every batch, of whatever size, from a writer that has just been opened. -/
theorem open_accepts {config : Persistence} {place : Location} {content : Bytes}
    (h : m.disk.Holds config.logPath place content) :
    ∃ writer env, writer.Opened config.logPath ∧ writer.place = place ∧
      ∀ rs, ∃ s', (append rs).run ⟨writer, { m with env }⟩ = (.ok (), s') ∧
        s'.machine.disk.Holds config.logPath place (content ++ Frame.encodeAll rs) := by
  obtain ⟨writer, env, hopen, hready⟩ := open_of_contains h.contains
  refine ⟨writer, env, ⟨config, m, _, writer, [], rfl, hopen, rfl⟩, hready.place_eq, fun rs => ?_⟩
  have hstate : State.Ready ⟨writer, { m with env }⟩ config.logPath place content := ⟨hready, h⟩
  obtain ⟨s', happend, -, hholds⟩ := hstate.append rs
  exact ⟨s', happend, hholds⟩

/-- An append that answers well does not tell whether the batch can be read. Of a log that loads, with a writer opened
on it and an id that no record of the log has, the transactions so far and then the batch are read after the append
just if the batch has records and all of them fit. -/
theorem append_exact {stats : LoadedLog.Stats} {loading : LoadedLog.Loading} {env : Env}
    (hfind : m.disk.find path = .ok (w.place, .regular file))
    (hload : (LoadedLog.load path).run ⟨index, m⟩ = (.ok stats, loading)) (hwriter : w.Opened path)
    (hfresh : ∀ r ∈ (Frame.decodeAll file.content).records, r.txId ≠ txId)
    (happend : (append (Record.sealBatch txId rs)).run ⟨w, { loading.machine with env }⟩ = (.ok (), s')) :
    ∃ log m', (LoadedLog.read path).run m = (.ok log, m') ∧
      ((∃ later m'', (LoadedLog.read path).run s'.machine = (.ok later, m'') ∧
          later.transactions = log.transactions ++ [Record.sealBatch txId rs]) ↔
        rs ≠ [] ∧ ∀ r ∈ rs, Frame.Fits r) := by
  obtain ⟨kept, dropped, tail, hsplits, hcut⟩ := LoadedLog.of_run_load hfind hload
  obtain ⟨_, hread⟩ := LoadedLog.read_of_splits hfind hsplits
  obtain ⟨asked, hleft⟩ := hcut.find
  obtain ⟨last, hlast, happended⟩ := find_of_append_ok hwriter hleft happend
  have hcontent : last.content = Frame.encodeAll kept ++ Frame.encodeAll (Record.sealBatch txId rs) := happended
  have hkept : ∀ r ∈ kept, Frame.Fits r := fun r hr => hsplits.fits r (List.mem_append_left _ hr)
  refine ⟨_, _, hread, ?_, ?_⟩
  · rintro ⟨later, m'', hlater, htransactions⟩
    have hmem : Record.sealBatch txId rs ∈ later.transactions := by
      rw [htransactions]
      exact List.mem_append_right _ (List.mem_singleton_self _)
    refine ⟨?_, Record.fits_sealBatch_iff.mp (LoadedLog.fits_of_run_read hlast hlater hmem)⟩
    -- Without records nothing has been written, and nothing more is read.
    rintro rfl
    have hsame : Scan.Splits last.content kept [] [] := by
      rw [hcontent, show Record.sealBatch txId [] = [] from rfl, Frame.encodeAll_nil, List.append_nil]
      exact Scan.splits_encodeAll hkept hsplits.settled
    obtain ⟨_, hread'⟩ := LoadedLog.read_of_splits hlast hsame
    rw [hread'] at hlater
    cases hlater
    exact List.cons_ne_nil _ _ (List.self_eq_append_right.mp htransactions)
  · rintro ⟨hrecords, hfits⟩
    have hbatch := Record.isBatch_sealBatch txId rs hrecords
    have hall : ∀ r ∈ kept ++ Record.sealBatch txId rs, Frame.Fits r :=
      List.forall_mem_append.mpr ⟨hkept, Record.fits_sealBatch_iff.mpr hfits⟩
    have hwaits : (Scan.after kept).waiting[txId]? = none := by
      rw [hsplits.records_decodeAll] at hfresh
      exact Scan.getElem?_waiting_after fun r hr => hfresh r (List.mem_append_left _ hr)
    have hmore : Scan.Splits last.content (kept ++ Record.sealBatch txId rs) [] [] := by
      rw [hcontent, ← Frame.encodeAll_append]
      exact Scan.splits_encodeAll hall (Scan.settled_append_isBatch hbatch hall)
    obtain ⟨_, hlater⟩ := LoadedLog.read_of_splits hlast hmore
    exact ⟨_, _, hlater, Scan.transactions_append_isBatch hbatch hwaits⟩

end Writer

namespace Session

/-- A batch behind a log of one transaction. -/
theorem appended_and_read :
    let m := sampleMachine (Frame.encode sampleSealed)
    let path := sampleConfig.persistence.logPath
    ∃ stats loading writer env s' log m' later m'',
      (LoadedLog.load path).run ⟨∅, m⟩ = (.ok stats, loading) ∧ writer.Opened path ∧
      (Writer.append (Record.sealBatch 2 [sampleRecord [98]])).run ⟨writer, { loading.machine with env }⟩ =
        (.ok (), s') ∧
      (LoadedLog.read path).run m = (.ok log, m') ∧ (LoadedLog.read path).run s'.machine = (.ok later, m'') ∧
      later.transactions = log.transactions ++ [Record.sealBatch 2 [sampleRecord [98]]] := by
  intro m path
  obtain ⟨file, hfind, hcontent, hreliable⟩ := holds_sampleMachine (Frame.encode sampleSealed)
  have hsettled : Scan.Splits (Frame.encodeAll [sampleSealed]) [sampleSealed] [] [] :=
    Scan.splits_encodeAll (by decide) rfl
  have hsplits : Scan.Splits file.content [sampleSealed] [] [] := by
    rwa [hcontent, ← List.append_nil (Frame.encode sampleSealed)]
  have hreplay : (Index.replay (Scan.transactions [sampleSealed]).flatten).run ∅ =
      (.ok (), ((Index.replay (Scan.transactions [sampleSealed]).flatten).run ∅).2) := Prod.ext (by cbv) rfl
  obtain ⟨machine, hload, hcut⟩ := LoadedLog.load_of_splits hfind (fun _ => hreliable.2 _) hsplits hreplay
  obtain ⟨writer, env, hopened, hplace, haccepts⟩ := Writer.open_accepts (hcut.holds hreliable)
  obtain ⟨s', happend, -⟩ := haccepts (Record.sealBatch 2 [sampleRecord [98]])
  have hfresh : ∀ r ∈ (Frame.decodeAll file.content).records, r.txId ≠ 2 := by
    rw [hsplits.records_decodeAll]
    decide
  obtain ⟨log, m', hread, hiff⟩ := Writer.append_exact (hplace.symm ▸ hfind) hload hopened hfresh happend
  obtain ⟨later, m'', hlater, htransactions⟩ := hiff.mpr ⟨by simp, by decide⟩
  exact ⟨_, _, writer, env, s', log, m', later, m'', hload, hopened, happend, hread, hlater, htransactions⟩

/-- Of a body with as many octets as a length field has values, no octet is announced. -/
theorem read_oversized {m : Machine} {path : String} {place : Location} {value : Bytes}
    (h : m.disk.Holds path place (Frame.encodeAll (Record.sealBatch 1 [sampleRecord value])))
    (hvalue : value.length = UInt32.size - 39) :
    ∃ env, (LoadedLog.read path).run m = (.error (.logCorrupted (.shortBody 0)), { m with env }) := by
  obtain ⟨file, hfind, hcontent, -⟩ := h
  have hbucket : (Utf8.encode "b").length = 1 := by cbv
  have hcut : (Frame.body { sampleRecord value with txId := 1, status := .committed }).length % UInt32.size = 0 := by
    rw [Frame.length_body]
    simp only [sampleRecord, hbucket, hvalue, List.length_singleton, Frame.fixedLength, UInt32.size, Nat.mod_self]
  have hshort := hcut.trans_lt (show 0 < Frame.fixedLength by decide)
  have hframes : file.content = Frame.encodeAll [] ++ (Frame.encode { sampleRecord value with
      txId := 1, status := .committed } ++ []) := hcontent
  obtain ⟨env, hread⟩ := LoadedLog.read_cut_length hfind hframes (by simp) hshort
  rw [hcut] at hread
  exact ⟨env, hread⟩

/-- An empty log takes a batch with such a body, and cannot be read afterwards. It also takes a batch without
records, of which nothing is read. -/
theorem taken_and_not_read :
    let m := sampleMachine []
    let path := sampleConfig.persistence.logPath
    ∃ stats loading writer env file,
      (LoadedLog.load path).run ⟨∅, m⟩ = (.ok stats, loading) ∧ writer.Opened path ∧
      m.disk.find path = .ok (writer.place, .regular file) ∧ file.content = [] ∧
      (∃ s' m', (Writer.append (Record.sealBatch 1 [sampleRecord (List.replicate (UInt32.size - 39) 97)])).run
          ⟨writer, { loading.machine with env }⟩ = (.ok (), s') ∧
        (LoadedLog.read path).run s'.machine = (.error (.logCorrupted (.shortBody 0)), m')) ∧
      ∃ s' log m', (Writer.append (Record.sealBatch 1 [])).run ⟨writer, { loading.machine with env }⟩ =
          (.ok (), s') ∧
        (LoadedLog.read path).run s'.machine = (.ok log, m') ∧ log.transactions = [] := by
  intro m path
  obtain ⟨file, hfind, hcontent, hreliable⟩ := holds_sampleMachine []
  have hsplits : Scan.Splits file.content [] [] [] := by
    rw [hcontent]
    exact Scan.splits_nil
  have hreplay : (Index.replay (Scan.transactions []).flatten).run ∅ = (.ok (), ∅) := rfl
  obtain ⟨machine, hload, hcut⟩ := LoadedLog.load_of_splits hfind (fun _ => hreliable.2 _) hsplits hreplay
  obtain ⟨writer, env, hopened, hplace, haccepts⟩ := Writer.open_accepts (hcut.holds hreliable)
  refine ⟨_, _, writer, env, file, hload, hopened, hplace.symm ▸ hfind, hcontent, ?_, ?_⟩
  · obtain ⟨s', happend, hholds⟩ :=
      haccepts (Record.sealBatch 1 [sampleRecord (List.replicate (UInt32.size - 39) 97)])
    obtain ⟨env', hread⟩ := read_oversized hholds List.length_replicate
    exact ⟨s', _, happend, hread⟩
  · obtain ⟨s', happend, last, hlast, hoctets, -⟩ := haccepts (Record.sealBatch 1 [])
    have hnone : Scan.Splits last.content [] [] [] := by
      rw [hoctets]
      exact Scan.splits_nil
    obtain ⟨env', hread⟩ := LoadedLog.read_of_splits hlast hnone
    exact ⟨s', _, _, happend, hread, rfl⟩

end Session

end DurableLists

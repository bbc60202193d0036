import Mathlib.Data.List.DropRight
import DurableLists.Proofs.Log.Load
import DurableLists.Proofs.Session.Starts

/-!
# What transactions are read of a log

Records of several transactions may stand in a log in any order, and an id may come again once it was closed.
`Record.groups` says which transactions these are, by positions: for each closing record the records under its
id since the last one that closed it. The scan keeps, under each id, the records since that id was closed
(`Scan.waitingOf_after`), so the transactions that it releases are these (`Scan.transactions_eq_groups`), and
no record of an id is lost, doubled or moved among those of its id (`Record.filter_flatten_groups`). With the
lengths and the greatest id this is all that is read of a log (`LoadedLog.read_groups`).
-/

set_option autoImplicit false

namespace DurableLists

namespace Record

/-! ## Transactions by positions -/

/-- The records under an id since the last one that closed it. -/
def openUnder (txId : UInt64) (rs : List Record) : List Record :=
  (rs.filter (·.txId == txId)).rtakeWhile (!·.isCommitted)

/-- For each closing record, in their order, the records under its id since the last one that closed it, and
then itself. -/
def groups (rs : List Record) : List (List Record) :=
  (rs.zipIdx.filter (·.1.isCommitted)).map fun p => openUnder p.1.txId (rs.take p.2) ++ [p.1]

theorem openUnder_concat (txId : UInt64) (rs : List Record) (r : Record) :
    openUnder txId (rs ++ [r]) = if r.txId = txId then
      if r.isCommitted then [] else openUnder txId rs ++ [r] else openUnder txId rs := by
  rw [openUnder, openUnder, List.filter_append]
  by_cases hid : r.txId = txId
  · rw [if_pos hid, List.filter_singleton, beq_iff_eq.mpr hid, cond_true, List.rtakeWhile_concat]
    cases r.isCommitted <;> rfl
  · rw [if_neg hid, List.filter_singleton, beq_eq_false_iff_ne.mpr hid, cond_false, List.append_nil]

theorem groups_concat (rs : List Record) (r : Record) : groups (rs ++ [r]) =
    groups rs ++ if r.isCommitted then [openUnder r.txId rs ++ [r]] else [] := by
  have hfront : ((rs.zipIdx.filter (·.1.isCommitted)).map
      fun p => openUnder p.1.txId ((rs ++ [r]).take p.2) ++ [p.1]) = groups rs := by
    refine List.map_congr_left fun p hp => ?_
    have hinside := List.mem_zipIdx (List.mem_of_mem_filter hp)
    rw [List.take_append_of_le_length (by omega)]
  rw [groups, List.zipIdx_append, List.filter_append, List.map_append, hfront, List.zipIdx_singleton]
  cases h : r.isCommitted with
  | true => simp [h]
  | false => simp [h]

theorem txId_of_mem_openUnder {txId : UInt64} {rs : List Record} {r : Record} (h : r ∈ openUnder txId rs) :
    r.txId = txId :=
  beq_iff_eq.mp (List.mem_filter.mp ((List.rtakeWhile_suffix _ _).subset h)).2

/-- The records of one id in the transactions are those up to the last one that closes it, each once and in
their order. -/
theorem filter_flatten_groups (txId : UInt64) (rs : List Record) :
    (groups rs).flatten.filter (·.txId == txId) =
      (rs.filter (·.txId == txId)).rdropWhile (!·.isCommitted) := by
  induction rs using List.reverseRecOn with
  | nil => rfl
  | append_singleton rs r ih =>
    rw [groups_concat, List.flatten_append, List.filter_append, ih, List.filter_append]
    by_cases hid : r.txId = txId
    · have hself : [r].filter (·.txId == txId) = [r] := by simp [hid]
      rw [hself]
      cases h : r.isCommitted with
      | true =>
        have hgroup : (openUnder r.txId rs ++ [r]).filter (·.txId == txId) = openUnder r.txId rs ++ [r] := by
          refine List.filter_eq_self.mpr fun t ht => beq_iff_eq.mpr ?_
          rcases List.mem_append.mp ht with ht | ht
          · exact (txId_of_mem_openUnder ht).trans hid
          · rwa [List.mem_singleton.mp ht]
        rw [if_pos rfl, List.flatten_singleton, hgroup, ← List.append_assoc, openUnder, hid,
          List.rdropWhile_append_rtakeWhile, List.rdropWhile_concat_neg _ _ _ (by simp [h])]
      | false =>
        rw [if_neg Bool.false_ne_true, List.flatten_nil, List.filter_nil, List.append_nil,
          List.rdropWhile_concat_pos _ _ _ (by simp [h])]
    · have hself : [r].filter (·.txId == txId) = [] := by simp [hid]
      have hgroup : (if r.isCommitted then [openUnder r.txId rs ++ [r]] else []).flatten.filter
          (·.txId == txId) = [] := by
        refine List.filter_eq_nil_iff.mpr fun t ht => ?_
        have hown : t.txId = r.txId := by
          cases h : r.isCommitted with
          | true =>
            rw [h, if_pos rfl, List.flatten_singleton] at ht
            rcases List.mem_append.mp ht with ht | ht
            · exact txId_of_mem_openUnder ht
            · rw [List.mem_singleton.mp ht]
          | false => simp [h] at ht
        rw [hown]
        simpa using hid
      rw [hself, hgroup, List.append_nil, List.append_nil]

theorem mem_of_mem_groups {rs group : List Record} {r : Record} (hgroup : group ∈ groups rs) (hr : r ∈ group) :
    r ∈ rs := by
  have hflat : r ∈ (groups rs).flatten.filter (·.txId == r.txId) :=
    List.mem_filter.mpr ⟨List.mem_flatten_of_mem hgroup hr, beq_self_eq_true _⟩
  rw [filter_flatten_groups] at hflat
  exact List.mem_of_mem_filter ((List.rdropWhile_prefix _ _).subset hflat)

end Record

namespace Scan

/-! ## What the scan keeps and releases -/

theorem waitingOf_after (txId : UInt64) (rs : List Record) :
    (after rs).waitingOf txId = (Record.openUnder txId rs).reverse := by
  induction rs using List.reverseRecOn with
  | nil => rfl
  | append_singleton rs r ih =>
    rw [after_concat, waitingOf_step, Record.openUnder_concat, ih]
    split
    · split
      · rfl
      · rw [List.reverse_concat]
    · rfl

/-- The transactions that are released are those that the positions of the records say. -/
theorem transactions_eq_groups (rs : List Record) : transactions rs = Record.groups rs := by
  induction rs using List.reverseRecOn with
  | nil => rfl
  | append_singleton rs r ih =>
    rw [Record.groups_concat, ← ih, transactions, transactions, log, log, after_concat]
    cases h : r.isCommitted with
    | true =>
      rw [step_close _ h, waitingOf_after]
      simp
    | false =>
      rw [step_open _ h]
      simp

theorem lastTxId_steps (rs : List Record) (scan : Scan) :
    (scan.steps rs).lastTxId = (rs.map (·.txId)).foldl max scan.lastTxId := by
  induction rs generalizing scan with
  | nil => rfl
  | cons r rs ih =>
    rw [steps_cons, ih, lastTxId_step, List.map_cons, List.foldl_cons]

theorem lastTxId_after (rs : List Record) :
    (after rs).lastTxId = ((rs.map (·.txId)).max?).getD 0 := by
  rw [after, lastTxId_steps]
  cases rs with
  | nil => rfl
  | cons r rs =>
    have hzero : max start.lastTxId r.txId = r.txId :=
      if_pos (UInt64.le_iff_toNat_le.mpr (Nat.zero_le _))
    rw [List.map_cons, List.foldl_cons, hzero, List.max?_cons', Option.getD_some]

theorem committedLength_after (rs : List Record) (hfits : ∀ r ∈ rs, Frame.Fits r) :
    (after rs).committedLength = (Frame.encodeAll (rs.rdropWhile (!·.isCommitted))).length := by
  induction rs using List.reverseRecOn with
  | nil => rfl
  | append_singleton rs r ih =>
    cases h : r.isCommitted with
    | true =>
      rw [List.rdropWhile_concat_neg _ _ _ (by simp [h]), ← consumed_after _ hfits, after_concat,
        step_close _ h]
    | false =>
      rw [List.rdropWhile_concat_pos _ _ _ (by simp [h]), ← ih fun t ht => hfits t (List.mem_append_left _ ht),
        after_concat, step_open _ h]

end Scan

namespace LoadedLog

/-- A log of the frames of records that fit, and of a part of one more frame, is read: its transactions are
those that the positions of the records say, in which the records of each id up to the last one that closes it
stand once and in their order. -/
theorem read_groups {m : Machine} {path : String} {place : Location} {file : File}
    (hfind : m.disk.find path = .ok (place, .regular file)) {rs : List Record}
    (hfits : ∀ r ∈ rs, Frame.Fits r) {torn : Record} (htorn : Frame.Fits torn) {n : Nat}
    (hn : n < (Frame.encode torn).length)
    (hcontent : file.content = Frame.encodeAll rs ++ (Frame.encode torn).take n) :
    ∃ log env, (read path).run m = (.ok log, { m with env }) ∧
      log.transactions = Record.groups rs ∧
      (∀ txId, log.records.filter (·.txId == txId) =
        (rs.filter (·.txId == txId)).rdropWhile (!·.isCommitted)) ∧
      log.recordCount = (log.transactions.map List.length).sum ∧
      log.lastTxId = ((rs.map (·.txId)).max?).getD 0 ∧
      log.committedLength = (Frame.encodeAll (rs.rdropWhile (!·.isCommitted))).length ∧
      log.fileLength = file.content.length := by
  have htail := Frame.decode_take_encode torn htorn hn
  have hchunks := Scan.flatten_chunks Disk.chunkSize (by decide) file.content
  have hscan := Scan.readAll_frames (hchunks.trans hcontent) hfits htail
  obtain ⟨env, hread⟩ := run_ofChunks m hscan
  rw [← run_read hfind] at hread
  have htransactions : (Scan.after rs).log.transactions = Record.groups rs := Scan.transactions_eq_groups rs
  refine ⟨_, env, hread, htransactions, fun txId => ?_, ?_, Scan.lastTxId_after rs,
    Scan.committedLength_after rs hfits, ?_⟩
  · rw [← Record.filter_flatten_groups, ← htransactions]
    rfl
  · exact List.length_flatten
  · exact congrArg List.length hchunks

end LoadedLog

namespace Session

/-- Two transactions that take turns, and the id of the first again. -/
def interleaved : List Record :=
  [loggedRecord 7 1 .uncommitted, loggedRecord 4 2 .uncommitted, loggedRecord 7 3 .committed,
    loggedRecord 7 4 .uncommitted, loggedRecord 4 5 .committed, loggedRecord 7 6 .committed,
    loggedRecord 9 7 .uncommitted]

theorem length_loggedFrame (txId : UInt64) (element : UInt8) (status : Status) :
    (Frame.encode (loggedRecord txId element status)).length = 48 := by
  rw [Frame.length_encode, Frame.length_body]
  rfl

theorem read_interleaved : ∃ log env,
    (LoadedLog.read sampleConfig.persistence.logPath).run
        (sampleMachine (Frame.encodeAll interleaved ++ (Frame.encode (loggedRecord 9 8 .committed)).take 20)) =
      (.ok log, { sampleMachine
        (Frame.encodeAll interleaved ++ (Frame.encode (loggedRecord 9 8 .committed)).take 20) with env }) ∧
      log.transactions = [[loggedRecord 7 1 .uncommitted, loggedRecord 7 3 .committed],
        [loggedRecord 4 2 .uncommitted, loggedRecord 4 5 .committed],
        [loggedRecord 7 4 .uncommitted, loggedRecord 7 6 .committed]] ∧
      log.lastTxId = 9 ∧ log.committedLength = 288 := by
  obtain ⟨file, hfind, hcontent, -⟩ := holds_sampleMachine
    (Frame.encodeAll interleaved ++ (Frame.encode (loggedRecord 9 8 .committed)).take 20)
  obtain ⟨log, env, hread, htransactions, -, -, hid, hcommitted, -⟩ :=
    LoadedLog.read_groups hfind (by decide) (by decide : Frame.Fits (loggedRecord 9 8 .committed))
      (by rw [length_loggedFrame]; decide) hcontent
  have hkept : interleaved.rdropWhile (!·.isCommitted) = interleaved.take 6 := rfl
  refine ⟨log, env, hread, htransactions, hid, hcommitted.trans ?_⟩
  rw [hkept]
  simp only [interleaved, List.take_succ_cons, List.take_zero, Frame.encodeAll_cons, Frame.encodeAll_nil,
    List.length_append, length_loggedFrame, List.length_nil]

end Session

end DurableLists

import DurableLists.Proofs.Publication
import DurableLists.Proofs.Session.Logged

/-!
# Every record of a log is justified

In a log that started absent or empty, each record is justified where the records before it have been replayed, and can
be applied there; no key that is registered on the way holds a separator (`Session.log_justified`). The drafts have
justified their records on the index that they met, and a commit appends them to what has led to that index.

Nothing is assumed of the file but that it is a regular one. A write, a flush or a sync that is refused leaves some of a
batch in the log, or all of it: these records are justified as well, and the next opening drops an open part and replays
a whole batch.
-/

set_option autoImplicit false

namespace DurableLists

namespace Session

open Database

variable {α : Type} {machine : Machine} {config : Config} {s : Session}

/-- What the records of a file are, which splits into records that have led to an index, open ones, and a rest. -/
theorem justified_of_splits {m : Machine} {path : String} {place : Location} {content tail : Bytes}
    {kept dropped : List Record} {stop : Index} (hfile : m.disk.Contains path place content)
    (hsplits : Scan.Splits content kept dropped tail) (hstop : stop.Recorded kept)
    (hjustified : (∅ : Index).Justifies (kept ++ dropped)) :
    m.disk.read path = .ok (Frame.encodeAll (kept ++ dropped) ++ tail) ∧
      (∃ log after, (LoadedLog.read path).run m = (.ok log, after) ∧ log.transactions.flatten = kept) ∧
      ∀ n, ∃ index, (Index.replay ((kept ++ dropped).take n)).run ∅ = (.ok (), index) ∧ index.PlainKeys ∧
        ∀ r, (kept ++ dropped)[n]? = some r → r.Justified index ∧
          ∃ count next, (Index.applyRecord r).run index = (.ok count, next) := by
  obtain ⟨file, hfind, rfl⟩ := hfile
  refine ⟨?_, ?_, fun n => ?_⟩
  · rw [Disk.read_of_find hfind, ← hsplits.content_eq]
  · obtain ⟨env, hread⟩ := LoadedLog.read_of_splits hfind hsplits
    exact ⟨_, _, hread, hstop.transactions_eq⟩
  · obtain ⟨index, htaken, hbefore, hnext⟩ := hjustified.take n
    exact ⟨index, htaken, hbefore.plainKeys .empty htaken, fun r hr =>
      ⟨hnext r hr, Index.applyRecord_of_justified (hnext r hr)⟩⟩

/-- At any moment of a run, whatever its files have answered and whatever openings have failed, the log holds records
and octets that are no whole frame. The loader reads the records, but for open ones at the end. The live index is what
some of the records lead to, and all of them, with nothing behind them, unless the writer is latched. And replaying any
number of them succeeds and registers plain keys only, and the next one is justified there and can be applied. -/
theorem log_justified (hopens : Opens machine config [] s) (actions : List (Action α))
    (hstays : ∀ action ∈ actions, action.StaysOn config.persistence.logPath)
    (hfits : ∀ t ∈ submissions actions s, ∀ r ∈ t.pending, Frame.Fits r) :
    ∃ records tail, (run actions s).2.machine.disk.read config.persistence.logPath =
        .ok (Frame.encodeAll records ++ tail) ∧ (∀ r ∈ records, Frame.Fits r) ∧ (Frame.decode tail).1 = .incomplete ∧
      (∃ log after dropped, (LoadedLog.read config.persistence.logPath).run (run actions s).2.machine =
        (.ok log, after) ∧ records = log.transactions.flatten ++ dropped ∧ ∀ r ∈ dropped, r.isCommitted = false) ∧
      (∀ live, (run actions s).2.db = some live →
        ∃ n, (Index.replay (records.take n)).run ∅ = (.ok (), live.index) ∧
          (Latched ⟨live, (run actions s).2.machine⟩ ∨ n = records.length ∧ tail = [])) ∧
      ∀ n, ∃ index, (Index.replay (records.take n)).run ∅ = (.ok (), index) ∧ index.PlainKeys ∧
        ∀ r, records[n]? = some r → r.Justified index ∧
          ∃ count next, (Index.applyRecord r).run index = (.ok count, next) := by
  obtain ⟨place, hfirst⟩ := hopens.logged
  have hlast := logged_run actions hfirst hstays hfits
  generalize (run actions s).2 = last at hlast ⊢
  -- An open writer has nothing behind the records that have led to the index.
  have hlive : ∃ (index : Index) (rs batch : List Record) (front : Bytes), index.Recorded rs ∧ index.Admits batch ∧
      front <+: Frame.encodeAll batch ∧
      last.machine.disk.Contains config.persistence.logPath place (Frame.encodeAll rs ++ front) ∧
      ∀ live, last.db = some live → live.index = index ∧ (Latched ⟨live, last.machine⟩ ∨ front = []) := by
    cases hdb : last.db with
    | none =>
      obtain ⟨index, rs, batch, front, hrecorded, hadmits, hfront, hfile⟩ := hlast.keeps
      exact ⟨index, rs, batch, front, hrecorded, hadmits, hfront, hfile, nofun⟩
    | some db =>
      obtain ⟨rs, batch, writer, hlog, hrecorded, hadmits, htorn, hopen⟩ := hlast.running db hdb
      obtain ⟨front, hfile, hfront, -⟩ := htorn.file
      refine ⟨db.index, rs, batch, front, hrecorded, hadmits, hfront, hfile, ?_⟩
      rintro live ⟨⟩
      refine ⟨rfl, ?_⟩
      cases hlatch : writer.readOnly with
      | true => exact Or.inl ⟨writer, hlog, hlatch⟩
      | false =>
        rw [hopen hlatch] at hfront
        exact Or.inr (List.prefix_nil.mp hfront)
  obtain ⟨index, rs, batch, front, hrecorded, hadmits, hfront, hfile, hlive⟩ := hlive
  obtain ⟨kept, dropped, tail, stop, hsplits, hstop, hbegins, hjustified, hnone⟩ :=
    hrecorded.splits_front hadmits hfront
  obtain ⟨hread, ⟨log, after, hloaded, htransactions⟩, hall⟩ := justified_of_splits hfile hsplits hstop hjustified
  refine ⟨kept ++ dropped, tail, hread, hsplits.fits, hsplits.tail_incomplete, ⟨log, after, dropped, hloaded, ?_,
    hsplits.dropped_open⟩, fun live hdb => ⟨rs.length, ?_, ?_⟩, hall⟩
  · rw [htransactions]
  · rw [(hlive live hdb).1, ← List.prefix_iff_eq_take.mp (hbegins.trans (List.prefix_append _ _))]
    exact hrecorded.replayed
  · refine (hlive live hdb).2.imp_right fun hempty => ?_
    obtain ⟨hkept, hdropped, htail⟩ := hnone hempty
    rw [hkept, hdropped, List.append_nil]
    exact ⟨rfl, htail⟩

/-! ## A file that refuses a sync and two writes -/

def faultyAnswers : Answers where
  write n := if n = 4 then some (60, .noSpace) else if n = 5 then some (10, .noSpace)
    else if n = 7 then some (60, .noSpace) else none
  sync n := if n = 1 then some .noSpace else none

def faultyConfig : Config := ⟨"info", ⟨true, "l", .always, .of 1 0⟩⟩

def faultyMachine : Machine :=
  ⟨Disk.fresh.put ["home", "work", "l"] (.regular ⟨[], faultyAnswers, 0⟩),
    ⟨⟨fun i => if i < 5 then 100 else 200, fun _ => 0, 0⟩, []⟩⟩

def faultyStart : Session := ((start faultyMachine faultyConfig).reopen faultyConfig).2

/-- The sync after the first batch is refused, and the reopening replays the batch. The push evicts the expired list.
The write of the third batch is refused in its second frame, and so is the rest when the database is closed; the
reopening cuts it off. The last batch is refused in its second frame as well. -/
def faultyActions : List (Action Unit) :=
  [sampleUpdate [.push .tail [107] [[97]], .expire [107] 5], .reopen faultyConfig, samplePush [98],
    sampleUpdate [.push .tail [107] [[99]], .pop .head [107]], .reopen faultyConfig,
    sampleUpdate [.push .tail [107] [[100]], .pop .head [107]]]

/-- The records that the log is left with. -/
def faultyRecords : List Record :=
  Record.sealBatch 1 [sampleRecord [97], stagedRecord .expire [53] 100] ++
    Record.sealBatch 2 [stagedRecord .delete [] 200] ++ [{ stagedRecord (.push .tail) [100] 200 with txId := 4 }]

def faultyTail : Bytes :=
  (Frame.encode { stagedRecord (.pop .head) [100] 200 with txId := 4, status := .committed }).take 12

theorem faultyStart_opens : Opens faultyMachine faultyConfig [] faultyStart where
  enabled := rfl
  meets := by
    have hfree : Disk.fresh.node? ["home", "work", "l"] = none := by cbv
    have hfind : faultyMachine.disk.find faultyConfig.persistence.logPath =
        .ok (["home", "work", "l"], .regular ⟨[], faultyAnswers, 0⟩) :=
      Disk.find_of_regular (Disk.locate_put _ (by simp [hfree]) (by cbv)) (Disk.node?_put_self _ _ _) (by cbv)
    exact Or.inl ⟨_, _, hfind, rfl⟩
  opened := Prod.ext (by cbv) rfl

set_option maxRecDepth 20000 in
theorem faultyActions_run : ((submissions faultyActions faultyStart).map (fun t => t.pending),
      (run faultyActions faultyStart).2.machine.disk.read faultyConfig.persistence.logPath) =
    ([[sampleRecord [97], stagedRecord .expire [53] 100], [stagedRecord .delete [] 200],
        [stagedRecord (.push .tail) [99] 200, stagedRecord (.pop .head) [99] 200],
        [stagedRecord (.push .tail) [100] 200, stagedRecord (.pop .head) [100] 200]],
      .ok (Frame.encodeAll faultyRecords ++ faultyTail)) := by
  cbv

theorem log_of_refusals_justified :
    (run faultyActions faultyStart).2.machine.disk.read faultyConfig.persistence.logPath =
        .ok (Frame.encodeAll faultyRecords ++ faultyTail) ∧
      ∀ n, ∃ index, (Index.replay (faultyRecords.take n)).run ∅ = (.ok (), index) ∧ index.PlainKeys ∧
        ∀ r, faultyRecords[n]? = some r → r.Justified index ∧
          ∃ count next, (Index.applyRecord r).run index = (.ok count, next) := by
  obtain ⟨hsubmissions, hcontent⟩ := Prod.mk.inj faultyActions_run
  have hstays : ∀ action ∈ faultyActions, action.StaysOn faultyConfig.persistence.logPath := by
    simp [faultyActions, samplePush, sampleUpdate, Action.StaysOn, faultyConfig]
  have hfits : ∀ t ∈ submissions faultyActions faultyStart, ∀ r ∈ t.pending, Frame.Fits r := by
    have hpending : ∀ pending ∈ (submissions faultyActions faultyStart).map (fun t => t.pending),
        ∀ r ∈ pending, Frame.Fits r := by
      rw [hsubmissions]
      decide
    exact List.forall_mem_map.mp hpending
  obtain ⟨records, tail, hread, hrecords, htail, -, -, hjustified⟩ :=
    log_justified faultyStart_opens faultyActions hstays hfits
  have hincomplete : (Frame.decode faultyTail).1 = .incomplete := by cbv
  have hsame : (⟨records, none, tail⟩ : Frame.Decoded) = ⟨faultyRecords, none, faultyTail⟩ := by
    have hoctets : Frame.encodeAll records ++ tail = Frame.encodeAll faultyRecords ++ faultyTail :=
      Except.ok.inj (hread.symm.trans hcontent)
    have hfound := congrArg Frame.decodeAll hoctets
    rw [Frame.decodeAll_encodeAll_append _ _ hrecords, Frame.decodeAll_incomplete htail,
      Frame.decodeAll_encodeAll_append _ _ (by decide), Frame.decodeAll_incomplete hincomplete] at hfound
    simpa [Frame.Decoded.after] using hfound
  obtain ⟨rfl, -, rfl⟩ := Frame.Decoded.mk.inj hsame
  exact ⟨hcontent, hjustified⟩

end Session

end DurableLists

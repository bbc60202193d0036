import DurableLists.Proofs.Database.Open
import DurableLists.Proofs.Tx.Faithful

/-!
# Databases backed by their log

A running database is backed by the records of its log if the file holds their frames and nothing else,
replaying the closed transactions gives the committed index, and nothing waits in the log under the id of
the next transaction. Opening makes a database backed (`Opened.backed`), and a commit keeps it so, with the
sealed batch at the end of the records (`Backed.backed_commitDraft`).
-/

set_option autoImplicit false

namespace DurableLists

def maxTxId : Nat := UInt64.size - 1

namespace Scan

/-- Nothing waits in a log, or all its ids are below `bound`. -/
def IdsBelow (rs : List Record) (bound : Nat) : Prop :=
  (after rs).waiting = ∅ ∨ (after rs).lastTxId.toNat < bound

theorem IdsBelow.fresh {rs : List Record} {txId : UInt64} (h : IdsBelow rs txId.toNat) :
    (after rs).waiting[txId]? = none := by
  rcases h with hempty | hlast
  · rw [hempty]
    exact Std.ExtTreeMap.getElem?_empty
  · by_contra hwaits
    have hseen := waitsBelow_after rs txId hwaits
    omega

theorem IdsBelow.append_isBatch {rs batch : List Record} {txId : UInt64} {bound : Nat}
    (h : IdsBelow rs bound) (hbatch : Record.IsBatch txId batch)
    (hfresh : (after rs).waiting[txId]? = none)
    (hid : (after rs).waiting = ∅ ∨ txId.toNat < bound) : IdsBelow (rs ++ batch) bound := by
  rcases h with hempty | hlast
  · left
    rw [waiting_append_isBatch hbatch hfresh, hempty]
  · rcases hid with hempty | hid
    · left
      rw [waiting_append_isBatch hbatch hfresh, hempty]
    · right
      obtain ⟨opens, close, rfl, hopens, hclose, -⟩ := hbatch
      rw [after_append]
      refine lastTxId_steps_lt _ _ _ hlast fun r hr => ?_
      rcases List.mem_append.mp hr with hr | hr
      · rwa [(hopens r hr).1]
      · rwa [List.mem_singleton.mp hr, hclose]

theorem IdsBelow.mono {rs : List Record} {bound larger : Nat} (h : IdsBelow rs bound)
    (hle : bound ≤ larger) : IdsBelow rs larger := h.imp_right fun hlast => Nat.lt_of_lt_of_le hlast hle

end Scan

theorem toNat_succ {txId : UInt64} (h : txId.toNat < maxTxId) : (txId + 1).toNat = txId.toNat + 1 := by
  have hmax : maxTxId = 2 ^ 64 - 1 := rfl
  rw [UInt64.toNat_add, UInt64.toNat_one]
  omega

namespace Record

/-- Sealing leaves the lengths of records. -/
theorem fits_sealBatch_iff {txId : UInt64} {rs : List Record} :
    (∀ r ∈ sealBatch txId rs, Frame.Fits r) ↔ ∀ r ∈ rs, Frame.Fits r := by
  fun_induction sealBatch txId rs with
  | case1 => exact Iff.rfl
  | case2 r =>
    rw [List.forall_mem_singleton, List.forall_mem_singleton]
    exact Iff.rfl
  | case3 r rs _ ih =>
    rw [List.forall_mem_cons, List.forall_mem_cons, ih]
    exact Iff.rfl

end Record

namespace Database

/-- A log at a path whose file holds the frames of records, the last of which closes a transaction, and
nothing else, and whose replay gives an index. -/
structure Stored (disk : Disk) (path : String) (place : Location) (rs : List Record) (index : Index) :
    Prop where
  holds : disk.Holds path place (Frame.encodeAll rs)
  fits : ∀ r ∈ rs, Frame.Fits r
  settled : Scan.Settled rs
  replayed : (Index.replay (Scan.transactions rs).flatten).run ∅ = (.ok (), index)
  idsBelow : Scan.IdsBelow rs maxTxId

/-- A running database whose log is stored, with a writer at its end and a next id above what waits. -/
structure Backed (path : String) (place : Location) (rs : List Record) (r : Running) : Prop where
  stored : Stored r.machine.disk path place rs r.db.index
  log : ∃ writer, r.db.log = some writer ∧ writer.Ready place
  fresh : Scan.IdsBelow rs r.db.nextTxId.toNat

theorem Stored.of_holds {disk disk' : Disk} {path : String} {place : Location} {rs : List Record}
    {index : Index} (h : Stored disk path place rs index)
    (hholds : disk'.Holds path place (Frame.encodeAll rs)) : Stored disk' path place rs index :=
  { h with holds := hholds }

/-! ## Opening -/

theorem Opened.backed {path : String} {place : Location} {kept dropped : List Record} {tail : Bytes}
    {content : Bytes} {r : Running} (h : Opened path place kept dropped r)
    (hsplits : Scan.Splits content kept dropped tail)
    (hids : Scan.IdsBelow kept maxTxId ∧ dropped = [] ∨
      (Scan.after (kept ++ dropped)).lastTxId.toNat < maxTxId) :
    Backed path place kept r := by
  have hkept : (Scan.after kept).lastTxId.toNat ≤ (Scan.after (kept ++ dropped)).lastTxId.toNat := by
    rw [Scan.after_append]
    exact Scan.le_lastTxId_steps dropped (Scan.after kept)
  have hbelow : Scan.IdsBelow kept maxTxId := by
    rcases hids with ⟨hids, -⟩ | hlast
    · exact hids
    · exact Or.inr (by omega)
  refine ⟨⟨h.holds, fun r hr => hsplits.fits r (List.mem_append_left _ hr), hsplits.settled, h.replayed,
    hbelow⟩, h.log, ?_⟩
  rw [h.nextTxId_eq]
  rcases hids with ⟨hids, rfl⟩ | hlast
  · rw [List.append_nil]
    rcases hids with hempty | hlast
    · exact Or.inl hempty
    · exact Or.inr (by rw [toNat_succ hlast]; omega)
  · exact Or.inr (by rw [toNat_succ hlast]; omega)

theorem Stored.opened {config : Config} {m : Machine} {place : Location} {rs : List Record} {index : Index}
    (h : Stored m.disk config.persistence.logPath place rs index)
    (henabled : config.persistence.enabled = true) :
    ∃ db m', (Database.open config).run m = (.ok db, m') ∧
      Opened config.persistence.logPath place rs [] ⟨db, m'⟩ ∧ db.index = index :=
  open_of_splits henabled h.holds (Scan.splits_encodeAll h.fits h.settled) h.replayed

theorem Stored.backed {path : String} {disk : Disk} {place : Location} {rs : List Record} {index : Index}
    {r : Running} (h : Stored disk path place rs index) (hopened : Opened path place rs [] r) :
    Backed path place rs r :=
  hopened.backed (Scan.splits_encodeAll h.fits h.settled) (Or.inl ⟨h.idsBelow, rfl⟩)

/-- A stored log can be opened, and the database that is opened has the index of the log. -/
theorem Stored.open {config : Config} {m : Machine} {place : Location} {rs : List Record} {index : Index}
    (h : Stored m.disk config.persistence.logPath place rs index)
    (henabled : config.persistence.enabled = true) :
    ∃ db m', (Database.open config).run m = (.ok db, m') ∧
      Backed config.persistence.logPath place rs ⟨db, m'⟩ ∧ db.index = index := by
  obtain ⟨db, m', hopen, hopened, hindex⟩ := h.opened henabled
  exact ⟨db, m', hopen, h.backed hopened, hindex⟩

namespace Backed

variable {path : String} {place : Location} {rs : List Record} {r : Running}

/-! ## The clock and the trace -/

theorem of_env (h : Backed path place rs r) (env : Env) :
    Backed path place rs { r with machine := { r.machine with env } } :=
  ⟨h.stored, h.log, h.fresh⟩

/-! ## Letting go -/

/-- A ready writer holds nothing back that a file would be handed in the end. -/
theorem release (h : Backed path place rs r) : r.db.release r.machine = r.machine := by
  obtain ⟨writer, hlog, hready⟩ := h.log
  simp only [Database.release, hlog, Writer.flush_of_buffer_nil (s := ⟨writer, r.machine⟩) hready.buffer_eq]

/-! ## Syncing -/

theorem sync (h : Backed path place rs r) :
    ∃ r', Database.sync.run r = (.ok (), r') ∧ Backed path place rs r' ∧ r'.db.index = r.db.index := by
  obtain ⟨writer, hlog, hready⟩ := h.log
  obtain ⟨s, hsync, hs⟩ := Writer.State.Ready.sync (s := ⟨writer, r.machine⟩) ⟨hready, h.stored.holds⟩
  refine ⟨{ db := { r.db with log := some s.writer }, machine := s.machine }, ?_,
    ⟨h.stored.of_holds hs.holds, ⟨s.writer, rfl, hs.writer⟩, h.fresh⟩, rfl⟩
  simp only [Database.sync, onLog, Attempt.run_ofFn, hlog, hsync]

/-! ## Committing -/

theorem run_append (hlog : ∃ writer, r.db.log = some writer ∧ writer.Ready place)
    (hholds : r.machine.disk.Holds path place (Frame.encodeAll rs)) (records : List Record) :
    ∃ writer machine, (onLog (Writer.append records)).run r =
        (.ok (), ⟨{ r.db with log := some writer }, machine⟩) ∧ writer.Ready place ∧
      machine.disk.Holds path place (Frame.encodeAll (rs ++ records)) := by
  obtain ⟨writer, hlog, hready⟩ := hlog
  obtain ⟨s, happend, hs⟩ :=
    Writer.State.Ready.append (s := ⟨writer, r.machine⟩) ⟨hready, hholds⟩ records
  refine ⟨s.writer, s.machine, ?_, hs.writer, ?_⟩
  · simp only [onLog, Attempt.run_ofFn, hlog, happend]
  · rw [Frame.encodeAll_append]
    exact hs.holds

theorem run_commitDraft (h : Backed path place rs r) (draft : Draft) :
    ∃ writer machine, (commitDraft draft).run r = (.ok r.db.nextTxId,
        ⟨⟨r.db.config, installAll r.db.index draft.working, some writer, r.db.nextTxId + 1⟩, machine⟩) ∧
      writer.Ready place ∧ machine.disk.Holds path place
        (Frame.encodeAll (rs ++ Record.sealBatch r.db.nextTxId draft.pending)) := by
  have htake := Attempt.run_modify (fun r' : Running => { r' with db.nextTxId := r.db.nextTxId + 1 }) r
  obtain ⟨writer, machine, happend, hready, hholds⟩ := run_append
    (r := { r with db.nextTxId := r.db.nextTxId + 1 }) h.log h.stored.holds
    (Record.sealBatch r.db.nextTxId draft.pending)
  refine ⟨writer, machine, ?_, hready, hholds⟩
  rw [commitDraft, Attempt.run_bind_ok (Attempt.run_get r)]
  simp only
  rw [Attempt.run_bind_ok htake, Attempt.run_bind_ok (Attempt.run_outcome _ _), happend]
  rfl

/-- After the commit of a faithful draft the log ends in its batch, which is released whole. -/
theorem backed_commitDraft (h : Backed path place rs r) {draft : Draft} (hpending : draft.pending ≠ [])
    (hfaithful : draft.Faithful r.db.index) (hfits : ∀ r ∈ draft.pending, Frame.Fits r)
    (hid : (Scan.after rs).waiting = ∅ ∨ r.db.nextTxId.toNat < maxTxId) {writer : Writer}
    {machine : Machine} (hready : writer.Ready place) (hholds : machine.disk.Holds path place
      (Frame.encodeAll (rs ++ Record.sealBatch r.db.nextTxId draft.pending))) :
    Backed path place (rs ++ Record.sealBatch r.db.nextTxId draft.pending)
      ⟨⟨r.db.config, installAll r.db.index draft.working, some writer, r.db.nextTxId + 1⟩, machine⟩ := by
  have hbatch := Record.isBatch_sealBatch r.db.nextTxId draft.pending hpending
  have hfresh := h.fresh.fresh
  have hall : ∀ t ∈ rs ++ Record.sealBatch r.db.nextTxId draft.pending, Frame.Fits t := by
    intro t ht
    rcases List.mem_append.mp ht with ht | ht
    · exact h.stored.fits t ht
    · exact Record.fits_sealBatch_iff.mpr hfits t ht
  have hreplayed : (Index.replay (Scan.transactions
      (rs ++ Record.sealBatch r.db.nextTxId draft.pending)).flatten).run ∅ =
      (.ok (), installAll r.db.index draft.working) := by
    rw [Scan.transactions_append_isBatch hbatch hfresh, List.flatten_append,
      Index.run_replay_append h.stored.replayed, List.flatten_singleton, Index.replay_sealBatch]
    exact (hfaithful fun t ht => (hfits t ht).sized).2
  refine ⟨⟨hholds, hall, Scan.settled_append_isBatch hbatch hall, hreplayed,
    h.stored.idsBelow.append_isBatch hbatch hfresh hid⟩, ⟨writer, rfl, hready⟩, ?_⟩
  rcases hid with hempty | hid
  · left
    rw [Scan.waiting_append_isBatch hbatch hfresh, hempty]
  · have hnext : (r.db.nextTxId + 1).toNat = r.db.nextTxId.toNat + 1 := toNat_succ hid
    change Scan.IdsBelow _ (r.db.nextTxId + 1).toNat
    rw [hnext]
    exact (h.fresh.mono (Nat.le_succ _)).append_isBatch hbatch hfresh (Or.inr (Nat.lt_succ_self _))

end Backed

end Database

end DurableLists

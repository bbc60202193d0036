import DurableLists.Proofs.Command.Justified
import DurableLists.Proofs.Log.Load

/-!
# Logs that have led to an index

`Index.Recorded` says that the records of a log are whole batches that have led to an index, each record justified
where the ones before it have been replayed; `Index.Admits` says of a batch that it can come next. A log that was
written until some octet of the next batch is read as the log without that batch, or with all of it: what is there of
a part of it are open records, justified as well, and octets that are no whole frame (`Recorded.splits_front`).
-/

set_option autoImplicit false

namespace DurableLists

namespace Index

/-- The records of a log have led to an index: they are whole batches with nothing left open, and each is justified
where those before it have been replayed. -/
structure Recorded (index : Index) (rs : List Record) : Prop where
  fits : ∀ r ∈ rs, Frame.Fits r
  settled : Scan.Settled rs
  waiting_eq : (Scan.after rs).waiting = ∅
  transactions_eq : (Scan.transactions rs).flatten = rs
  justified : (∅ : Index).Justifies rs
  replayed : (replay rs).run ∅ = (.ok (), index)

/-- Records can come next: there are none, or they are one batch whose records are justified. -/
structure Admits (index : Index) (batch : List Record) : Prop where
  batch_or_nil : batch = [] ∨ ∃ txId, Record.IsBatch txId batch
  fits : ∀ r ∈ batch, Frame.Fits r
  justified : index.Justifies batch

variable {index next : Index} {rs batch : List Record}

theorem recorded_nil : (∅ : Index).Recorded [] :=
  ⟨fun _ hr => absurd hr List.not_mem_nil, rfl, rfl, rfl, trivial, rfl⟩

theorem admits_nil : index.Admits [] := ⟨Or.inl rfl, fun _ hr => absurd hr List.not_mem_nil, trivial⟩

namespace Recorded

theorem append (h : index.Recorded rs) (hbatch : index.Admits batch)
    (hrun : (replay batch).run index = (.ok (), next)) : next.Recorded (rs ++ batch) := by
  rcases hbatch.batch_or_nil with rfl | ⟨txId, hone⟩
  · cases hrun
    rw [List.append_nil]
    exact h
  · have hfresh : (Scan.after rs).waiting[txId]? = none := by
      rw [h.waiting_eq]
      exact Std.ExtTreeMap.getElem?_empty
    have hfits : ∀ r ∈ rs ++ batch, Frame.Fits r := List.forall_mem_append.mpr ⟨h.fits, hbatch.fits⟩
    refine ⟨hfits, Scan.settled_append_isBatch hone hfits, ?_, ?_, ?_, ?_⟩
    · rw [Scan.waiting_append_isBatch hone hfresh, h.waiting_eq]
    · rw [Scan.transactions_append_isBatch hone hfresh, List.flatten_append, h.transactions_eq,
        List.flatten_singleton]
    · exact (Justifies.append_iff h.replayed).mpr ⟨h.justified, hbatch.justified⟩
    · rw [run_replay_append h.replayed, hrun]

theorem replayed_transactions (h : index.Recorded rs) :
    (replay (Scan.transactions rs).flatten).run ∅ = (.ok (), index) := by
  rw [h.transactions_eq]
  exact h.replayed

theorem splits (h : index.Recorded rs) : Scan.Splits (Frame.encodeAll rs) rs [] [] :=
  Scan.splits_encodeAll h.fits h.settled

/-- A log with a front of the next batch behind it: the batch is read if it is there whole. Else what is there of it
are open records and octets that are no whole frame. -/
theorem splits_front (h : index.Recorded rs) (hbatch : index.Admits batch) {front : Bytes}
    (hfront : front <+: Frame.encodeAll batch) : ∃ kept dropped tail, ∃ stop : Index,
      Scan.Splits (Frame.encodeAll rs ++ front) kept dropped tail ∧ stop.Recorded kept ∧ rs <+: kept ∧
      (∅ : Index).Justifies (kept ++ dropped) ∧ (front = [] → kept = rs ∧ dropped = [] ∧ tail = []) := by
  by_cases hempty : front = []
  · subst hempty
    refine ⟨rs, [], [], index, ?_, h, List.prefix_rfl, ?_, fun _ => ⟨rfl, rfl, rfl⟩⟩
    · rw [List.append_nil]
      exact h.splits
    · rw [List.append_nil]
      exact h.justified
  obtain ⟨j, tail, htake, htail, -⟩ := Frame.take_encodeAll batch hbatch.fits front.length
  rw [← List.prefix_iff_eq_take.mp hfront] at htake
  by_cases hj : j < batch.length
  · obtain ⟨txId, hone⟩ := hbatch.batch_or_nil.resolve_left fun hnil => by simp [hnil] at hj
    have hfits : ∀ r ∈ batch.take j, Frame.Fits r := fun r hr => hbatch.fits r (List.mem_of_mem_take hr)
    obtain ⟨-, -, hjustified, -⟩ := hbatch.justified.take j
    refine ⟨rs, batch.take j, tail, index, ⟨?_, List.forall_mem_append.mpr ⟨h.fits, hfits⟩, h.settled,
      hone.open_of_take hj, htail⟩, h, List.prefix_rfl, ?_, fun hnil => absurd hnil hempty⟩
    · rw [htake, Frame.encodeAll_append, List.append_assoc]
    · exact (Justifies.append_iff h.replayed).mpr ⟨h.justified, hjustified⟩
  · -- All frames of the batch are there, so nothing is behind them.
    rw [List.take_of_length_le (Nat.le_of_not_lt hj)] at htake
    have hwhole : front = Frame.encodeAll batch := by
      refine hfront.eq_of_length (Nat.le_antisymm hfront.length_le ?_)
      rw [htake, List.length_append]
      exact Nat.le_add_right _ _
    obtain ⟨stop, hrun⟩ := hbatch.justified.replay
    have hstop := h.append hbatch hrun
    refine ⟨rs ++ batch, [], [], stop, ?_, hstop, List.prefix_append _ _, ?_, fun hnil => absurd hnil hempty⟩
    · rw [hwhole, ← Frame.encodeAll_append]
      exact hstop.splits
    · rw [List.append_nil]
      exact hstop.justified

end Recorded

end Index

end DurableLists

import DurableLists.Log.Writer
import DurableLists.Proofs.Attempt

/-!
# The latch of a writer

Whatever its file answers, a writer whose append or sync has failed is latched (`of_append_error`,
`of_sync_error`). A latched writer refuses every batch and changes nothing (`append_of_readOnly`), and a sync
leaves it latched (`readOnly_sync`). How an append and the sync after it run is said by `run_append` and
`run_syncByPolicy`.
-/

set_option autoImplicit false

namespace DurableLists

namespace Writer

variable {s s' : State} {e : Error}

/-! ## The buffer keeps the latch -/

theorem readOnly_flush (s : State) : (flush s).2.writer.readOnly = s.writer.readOnly := by
  rw [flush]
  split <;> rfl

theorem readOnly_write (s : State) (bs : Bytes) : (write s bs).2.writer.readOnly = s.writer.readOnly := by
  have hfirst : (if capacity - s.writer.buffer.length < bs.length then flush s else (none, s)).2.writer.readOnly =
      s.writer.readOnly := by
    split
    · exact readOnly_flush s
    · rfl
  rw [write]
  revert hfirst
  rcases (if capacity - s.writer.buffer.length < bs.length then flush s else (none, s)) with ⟨_ | fault, middle⟩
  · intro hfirst
    simp only
    split <;> exact hfirst
  · exact id

theorem readOnly_writeThrough (s : State) (bs : Bytes) :
    (writeThrough s bs).2.writer.readOnly = s.writer.readOnly := by
  have hwrite := readOnly_write s bs
  rw [writeThrough]
  revert hwrite
  rcases write s bs with ⟨_ | fault, middle⟩
  · exact (readOnly_flush middle).trans
  · exact id

theorem readOnly_flushAndSync (s : State) : (flushAndSync s).2.writer.readOnly = s.writer.readOnly := by
  have hflush := readOnly_flush s
  rw [flushAndSync]
  revert hflush
  rcases flush s with ⟨_ | fault, s'⟩ <;> exact id

/-! ## Syncing -/

/-- A sync ends as emptying the buffer and forcing the file ends; a fault latches the writer. -/
theorem run_sync (s : State) : sync.run s =
    match flushAndSync s with
    | (some cause, s') =>
      (.error (.io cause), ⟨{ s'.writer with readOnly := true }, s'.machine.report (.syncFailed cause)⟩)
    | (none, s') =>
      (.ok (), ⟨{ s'.writer with lastSync := s'.machine.env.clock.uptime s'.machine.env.clock.taken },
        { s'.machine with env.clock := s'.machine.env.clock.tick }⟩) := by
  have hcall := Attempt.run_ofFn
    (fun s => ((.ok (flushAndSync s).1 : Except Error (Option IoError)), (flushAndSync s).2)) s
  rw [sync, Attempt.run_bind_ok hcall]
  rcases flushAndSync s with ⟨_ | cause, s'⟩ <;> rfl

theorem readOnly_sync (h : s.writer.readOnly = true) : (sync.run s).2.writer.readOnly = true := by
  have hkept := readOnly_flushAndSync s
  rw [run_sync]
  revert hkept
  rcases flushAndSync s with ⟨_ | cause, s'⟩
  · intro hkept
    exact hkept.trans h
  · intro _
    rfl

theorem of_sync_error (h : sync.run s = (.error e, s')) : s'.writer.readOnly = true := by
  rw [run_sync] at h
  revert h
  rcases flushAndSync s with ⟨_ | cause, middle⟩
  · intro h
    cases h
  · intro h
    cases h
    rfl

/-- After a batch the file is forced, or the writer is left as it is; a look at the clock may come before. -/
theorem run_syncByPolicy (s : State) : ∃ env, syncByPolicy.run s = sync.run { s with machine.env := env } ∨
    syncByPolicy.run s = (.ok (), { s with machine.env := env }) := by
  rw [syncByPolicy, Attempt.run_bind_ok (Attempt.run_get s)]
  cases s.writer.policy with
  | always => exact ⟨s.machine.env, Or.inl rfl⟩
  | never => exact ⟨s.machine.env, Or.inr rfl⟩
  | everySecond =>
    have hclock : (State.onEnv Env.uptime).run s =
        (.ok (s.machine.env.clock.uptime s.machine.env.clock.taken),
          { s with machine.env.clock := s.machine.env.clock.tick }) := rfl
    refine ⟨{ s.machine.env with clock := s.machine.env.clock.tick }, ?_⟩
    simp only
    rw [Attempt.run_bind_ok hclock, Attempt.run_bind_ok (Attempt.run_get _)]
    split
    · exact Or.inl rfl
    · exact Or.inr rfl

theorem of_syncByPolicy_error (h : syncByPolicy.run s = (.error e, s')) : s'.writer.readOnly = true := by
  obtain ⟨env, hrun | hrun⟩ := run_syncByPolicy s
  · exact of_sync_error (hrun.symm.trans h)
  · rw [hrun] at h
    cases h

/-! ## Appending -/

/-- A latched writer refuses a batch and changes nothing. -/
theorem append_of_readOnly (h : s.writer.readOnly = true) (records : List Record) :
    (append records).run s = (.error .latched, s) := by
  rw [append, Attempt.run_bind_ok (Attempt.run_get s)]
  simp only [h, if_true]
  rfl

theorem append_nil (h : s.writer.readOnly = false) : (append []).run s = (.ok (), s) := by
  rw [append, Attempt.run_bind_ok (Attempt.run_get s)]
  simp only [h, Bool.false_eq_true, if_false, List.isEmpty_nil, if_true]
  rfl

/-- A batch that is not refused goes through the buffer. A fault latches the writer; without one the batch is
reported, and synced as the policy says. -/
theorem run_append (h : s.writer.readOnly = false) {records : List Record} (hrecords : records ≠ []) :
    (append records).run s =
      match writeThrough s (Frame.encodeAll records) with
      | (some cause, s') => (.error (.io cause),
          ⟨{ s'.writer with readOnly := true }, s'.machine.report (.appendFailed (.io cause))⟩)
      | (none, s') => syncByPolicy.run ⟨s'.writer,
          s'.machine.report (.batchAppended records.length (Frame.encodeAll records).length)⟩ := by
  have hsome : records.isEmpty = false := by simpa using hrecords
  have hcall := Attempt.run_ofFn (fun s =>
    ((.ok (writeThrough s (Frame.encodeAll records)).1 : Except Error (Option IoError)),
      (writeThrough s (Frame.encodeAll records)).2)) s
  rw [append, Attempt.run_bind_ok (Attempt.run_get s)]
  simp only [h, hsome, Bool.false_eq_true, if_false]
  rw [Attempt.run_bind_ok hcall]
  rcases writeThrough s (Frame.encodeAll records) with ⟨_ | cause, s'⟩ <;> rfl

/-- A writer that has refused a batch, for whatever reason, is latched. -/
theorem of_append_error {records : List Record} (h : (append records).run s = (.error e, s')) :
    s'.writer.readOnly = true := by
  cases hlatch : s.writer.readOnly with
  | true =>
    rw [append_of_readOnly hlatch] at h
    cases h
    exact hlatch
  | false =>
    by_cases hrecords : records = []
    · subst hrecords
      rw [append_nil hlatch] at h
      cases h
    · rw [run_append hlatch hrecords] at h
      revert h
      rcases writeThrough s (Frame.encodeAll records) with ⟨_ | cause, middle⟩
      · exact of_syncByPolicy_error
      · intro h
        cases h
        rfl

end Writer

end DurableLists

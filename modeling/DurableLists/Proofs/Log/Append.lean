import DurableLists.Proofs.Disk.Takes
import DurableLists.Proofs.Log.Latch

/-!
# Appending to a log

A writer is ready if its buffer is empty and it has not been latched. On a file that takes every request
a ready writer takes every batch and every sync (`Writer.Ready.append`, `Writer.Ready.sync`): the file then
ends in the frames of the batch, and the writer is ready again.
-/

set_option autoImplicit false

namespace DurableLists

namespace Writer

/-- Whether a writer stands at a place, holds nothing back and takes batches. -/
structure Ready (writer : Writer) (place : Location) : Prop where
  place_eq : writer.place = place
  buffer_eq : writer.buffer = []
  readOnly_eq : writer.readOnly = false

/-- A ready writer and the file at its place, which takes every request and has the given content. -/
structure State.Ready (s : State) (path : String) (place : Location) (content : Bytes) : Prop where
  writer : s.writer.Ready place
  holds : s.machine.disk.Holds path place content

variable {s : State} {path : String} {place : Location} {content bs : Bytes}

/-! ## Octets -/

theorem flush_of_buffer_nil (h : s.writer.buffer = []) : flush s = (none, s) := by
  simp only [flush, h, List.isEmpty_nil, if_true]

theorem withBuffer_of_buffer_nil (h : s.writer.buffer = []) : s.withBuffer [] = s := by
  obtain ⟨⟨path, place, policy, interval, buffer, lastSync, readOnly⟩, machine⟩ := s
  cases h
  rfl

theorem writeThrough_nil (h : s.writer.buffer = []) : writeThrough s [] = (none, s) := by
  have hwrite : write s [] = (none, s) := by
    have hempty : s.withBuffer (s.writer.buffer ++ []) = s := by
      rw [h]
      exact withBuffer_of_buffer_nil h
    simp only [write, List.length_nil, Nat.not_lt_zero, if_false, hempty]
    rfl
  rw [writeThrough, hwrite]
  exact flush_of_buffer_nil h

/-- With nothing held back, octets come to the file in one piece, by the buffer or directly. The buffer then keeps
what the file did not take, or nothing. -/
theorem writeThrough_of_buffer_nil (h : s.writer.buffer = []) (hbs : bs ≠ []) :
    (writeThrough s bs).1 = (hand s bs).1.2 ∧
      ∃ held, (writeThrough s bs).2 = (hand s bs).2.withBuffer held ∧
        (held = [] ∨ held = bs.drop (hand s bs).1.1) := by
  have hfree : (if capacity - s.writer.buffer.length < bs.length then flush s else (none, s)) = (none, s) := by
    rw [flush_of_buffer_nil h, ite_self]
  cases hhand : s.machine.disk.append s.writer.place bs with
  | mk answer disk =>
    obtain ⟨taken, fault⟩ := answer
    have hhanded : hand s bs = ((taken, fault), s.withDisk disk) := by
      simp only [hand, hhand]
    have hempty : (s.withDisk disk).withBuffer [] = s.withDisk disk :=
      withBuffer_of_buffer_nil (s := s.withDisk disk) h
    rw [hhanded]
    by_cases hsmall : bs.length < capacity
    · have hwrite : write s bs = (none, s.withBuffer bs) := by
        simp only [write, hfree, hsmall, if_true]
        rw [h, List.nil_append]
      have hflush : flush (s.withBuffer bs) =
          (fault, ((s.withBuffer bs).withDisk disk).withBuffer (bs.drop taken)) := by
        have hbuffered : (s.withBuffer bs).writer.buffer = bs := rfl
        have hhanded' : hand (s.withBuffer bs) bs = ((taken, fault), (s.withBuffer bs).withDisk disk) := by
          have hsame : (s.withBuffer bs).machine.disk.append (s.withBuffer bs).writer.place bs =
              ((taken, fault), disk) := hhand
          simp only [hand, hsame]
        have hkept : ((s.withBuffer bs).withDisk disk).writer.buffer = bs := rfl
        simp only [flush, hbuffered, List.isEmpty_iff, hbs, if_false, hhanded', hkept]
      rw [writeThrough, hwrite]
      exact ⟨congrArg Prod.fst hflush, bs.drop taken, congrArg Prod.snd hflush, Or.inr rfl⟩
    · have hwrite : write s bs = (fault, s.withDisk disk) := by
        simp only [write, hfree, hsmall, if_false, hhanded]
      rw [writeThrough, hwrite]
      cases fault with
      | some cause => exact ⟨rfl, [], hempty.symm, Or.inl rfl⟩
      | none =>
        have hflush : flush (s.withDisk disk) = (none, s.withDisk disk) := flush_of_buffer_nil h
        exact ⟨congrArg Prod.fst hflush, [], (congrArg Prod.snd hflush).trans hempty.symm, Or.inl rfl⟩

/-- Octets that are taken without a fault leave the buffer empty. -/
theorem writeThrough_of_taken (h : s.writer.buffer = []) (hbs : bs ≠ []) (htaken : (hand s bs).1.2 = none) :
    (writeThrough s bs).2 = (hand s bs).2 := by
  obtain ⟨-, held, hstate, hheld⟩ := writeThrough_of_buffer_nil h hbs
  have hnone : held = [] := by
    rcases hheld with hheld | hheld
    · exact hheld
    · have happend : s.machine.disk.append s.writer.place bs =
          (((hand s bs).1.1, none), (s.machine.disk.append s.writer.place bs).2) :=
        Prod.ext (Prod.ext rfl htaken) rfl
      rw [hheld, Disk.taken_of_append happend, List.drop_length]
  rw [hstate, hnone]
  exact withBuffer_of_buffer_nil h

theorem hand_of_holds (hplace : s.writer.place = place) (h : s.machine.disk.Holds path place content)
    (bs : Bytes) : ∃ disk, hand s bs = ((bs.length, none), s.withDisk disk) ∧
      disk.Holds path place (content ++ bs) := by
  obtain ⟨disk, happend, hholds⟩ := h.append bs
  refine ⟨disk, ?_, hholds⟩
  simp only [hand, hplace, happend]

theorem writeThrough_of_ready (h : s.Ready path place content) (bs : Bytes) :
    ∃ s', writeThrough s bs = (none, s') ∧ s'.Ready path place (content ++ bs) := by
  obtain ⟨⟨hplace, hbuffer, hreadOnly⟩, hholds⟩ := h
  by_cases hbs : bs = []
  · subst hbs
    rw [List.append_nil]
    exact ⟨s, writeThrough_nil hbuffer, ⟨hplace, hbuffer, hreadOnly⟩, hholds⟩
  · obtain ⟨disk, hhand, hdisk⟩ := hand_of_holds hplace hholds bs
    obtain ⟨hfault, -⟩ := writeThrough_of_buffer_nil hbuffer hbs
    have hstate := writeThrough_of_taken hbuffer hbs (by rw [hhand])
    rw [hhand] at hfault hstate
    exact ⟨s.withDisk disk, Prod.ext hfault hstate, ⟨hplace, hbuffer, hreadOnly⟩, hdisk⟩

theorem flushAndSync_of_ready (h : s.Ready path place content) :
    ∃ s', flushAndSync s = (none, s') ∧ s'.Ready path place content := by
  obtain ⟨⟨hplace, hbuffer, hreadOnly⟩, hholds⟩ := h
  obtain ⟨disk, hsync, hdisk⟩ := hholds.sync
  refine ⟨s.withDisk disk, ?_, ⟨hplace, hbuffer, hreadOnly⟩, hdisk⟩
  simp only [flushAndSync, flush_of_buffer_nil hbuffer, hplace, hsync]

namespace State.Ready

/-! ## Batches -/

theorem sync (h : s.Ready path place content) :
    ∃ s', Writer.sync.run s = (.ok (), s') ∧ s'.Ready path place content := by
  obtain ⟨s', hforce, ⟨hplace, hbuffer, hreadOnly⟩, hholds⟩ := flushAndSync_of_ready h
  rw [run_sync, hforce]
  exact ⟨_, rfl, ⟨hplace, hbuffer, hreadOnly⟩, hholds⟩

theorem syncByPolicy (h : s.Ready path place content) :
    ∃ s', Writer.syncByPolicy.run s = (.ok (), s') ∧ s'.Ready path place content := by
  obtain ⟨env, hrun | hrun⟩ := run_syncByPolicy s
  · have hready : State.Ready { s with machine.env := env } path place content := ⟨h.writer, h.holds⟩
    rw [hrun]
    exact hready.sync
  · exact ⟨_, hrun, h.writer, h.holds⟩

/-- A ready writer takes a batch: the file then ends in the frames of the batch. -/
theorem append (h : s.Ready path place content) (records : List Record) :
    ∃ s', (Writer.append records).run s = (.ok (), s') ∧
      s'.Ready path place (content ++ Frame.encodeAll records) := by
  cases records with
  | nil =>
    refine ⟨s, append_nil h.writer.readOnly_eq, ?_⟩
    rw [show Frame.encodeAll [] = [] from rfl, List.append_nil]
    exact h
  | cons r rs =>
    obtain ⟨s', hwrite, hready⟩ := writeThrough_of_ready h (Frame.encodeAll (r :: rs))
    rw [run_append h.writer.readOnly_eq (List.cons_ne_nil r rs), hwrite]
    exact syncByPolicy ⟨hready.writer, hready.holds⟩

end State.Ready

end Writer

end DurableLists

import DurableLists.Proofs.Frame.Chunks
import DurableLists.Proofs.Log.Append

/-!
# What a writer leaves of a batch

When a write is refused, the file may have taken a front of the batch, and the buffer may hold the rest, which a later
sync or the end of the writer hands to the file again. `Writer.State.Torn` says where the octets of a batch are then:
a front in the file, and nothing or the rest in the buffer. However the file answers, every call on the writer keeps
this (`Torn.flush`, `Torn.sync`), and an append of a batch, taken or refused, ends so (`Torn.append`).
-/

set_option autoImplicit false

namespace DurableLists

namespace Writer

/-- A writer at a place, and the file there. Behind some content the file has a front of a batch, and the buffer holds
the rest of the batch or nothing. -/
structure State.Torn (s : State) (path : String) (place : Location) (content batch : Bytes) : Prop where
  place_eq : s.writer.place = place
  file : ∃ front, s.machine.disk.Contains path place (content ++ front) ∧ front <+: batch ∧
    (s.writer.buffer = [] ∨ front ++ s.writer.buffer = batch)

variable {s s' : State} {path : String} {place : Location} {content batch bs : Bytes} {records : List Record}
  {outcome : Except Error Unit}

theorem Ready.torn (h : s.writer.Ready place) (hfile : s.machine.disk.Contains path place content) :
    s.Torn path place content [] := by
  refine ⟨h.place_eq, [], ?_, List.prefix_rfl, Or.inl h.buffer_eq⟩
  rw [List.append_nil]
  exact hfile

namespace State.Torn

/-- Of nothing nothing is in the file, and nothing is held back. -/
theorem whole (h : s.Torn path place content []) :
    s.writer.buffer = [] ∧ s.machine.disk.Contains path place content := by
  obtain ⟨-, front, hfile, hfront, hbuffer⟩ := h
  rw [List.prefix_nil.mp hfront] at hfile hbuffer
  rw [List.append_nil] at hfile
  exact ⟨hbuffer.elim id id, hfile⟩

/-- What else a state is made of makes no difference. -/
theorem of_eq (h : s.Torn path place content batch) (hplace : s'.writer.place = s.writer.place)
    (hbuffer : s'.writer.buffer = s.writer.buffer) (hdisk : s'.machine.disk = s.machine.disk) :
    s'.Torn path place content batch := by
  refine ⟨hplace.trans h.place_eq, ?_⟩
  rw [hdisk, hbuffer]
  exact h.file

/-! ## Calls on the writer -/

/-- Emptying the buffer hands the rest of the batch to the file, which takes some of it. -/
theorem flush (h : s.Torn path place content batch) : (Writer.flush s).2.Torn path place content batch := by
  by_cases hempty : s.writer.buffer = []
  · rw [flush_of_buffer_nil hempty]
    exact h
  · obtain ⟨hplace, front, hfile, -, hbuffer⟩ := h
    have hrest : front ++ s.writer.buffer = batch := hbuffer.resolve_left hempty
    obtain ⟨taken, fault, disk, happend, hdisk, -⟩ := hfile.append s.writer.buffer
    have hhand : hand s s.writer.buffer = ((taken, fault), s.withDisk disk) := by
      simp only [hand, hplace, happend]
    have hsplit : (front ++ s.writer.buffer.take taken) ++ s.writer.buffer.drop taken = batch := by
      rw [List.append_assoc, List.take_append_drop, hrest]
    simp only [Writer.flush, List.isEmpty_iff, hempty, if_false, hhand]
    refine ⟨hplace, front ++ s.writer.buffer.take taken, ?_, ⟨_, hsplit⟩, Or.inr hsplit⟩
    rw [← List.append_assoc]
    exact hdisk

theorem flushAndSync (h : s.Torn path place content batch) :
    (Writer.flushAndSync s).2.Torn path place content batch := by
  have hflushed := h.flush
  rw [Writer.flushAndSync]
  revert hflushed
  rcases Writer.flush s with ⟨fault | cause, middle⟩
  · intro hflushed
    obtain ⟨hplace, front, hfile, hfront, hbuffer⟩ := hflushed
    obtain ⟨fault, disk, hsync, hdisk⟩ := hfile.sync
    rw [← hplace] at hsync
    simp only [hsync]
    exact ⟨hplace, front, hdisk, hfront, hbuffer⟩
  · exact id

theorem sync (h : s.Torn path place content batch) : (Writer.sync.run s).2.Torn path place content batch := by
  have hforced := h.flushAndSync
  rw [run_sync]
  revert hforced
  rcases Writer.flushAndSync s with ⟨fault | cause, middle⟩
  · exact fun hforced => hforced.of_eq rfl rfl rfl
  · exact fun hforced => hforced.of_eq rfl rfl rfl

theorem syncByPolicy (h : s.Torn path place content batch) :
    (Writer.syncByPolicy.run s).2.Torn path place content batch := by
  obtain ⟨env, hrun | hrun⟩ := run_syncByPolicy s
  · have hsame : State.Torn { s with machine.env := env } path place content batch := h.of_eq rfl rfl rfl
    rw [hrun]
    exact hsame.sync
  · rw [hrun]
    exact h.of_eq rfl rfl rfl

/-- Octets that are put through an empty buffer: the file takes a front of them, or all. -/
theorem writeThrough (h : s.Torn path place content []) (hbs : bs ≠ []) :
    (Writer.writeThrough s bs).2.Torn path place content bs ∧
      ((Writer.writeThrough s bs).1 = none → (Writer.writeThrough s bs).2.Torn path place (content ++ bs) []) := by
  obtain ⟨hempty, hfile⟩ := h.whole
  obtain ⟨taken, fault, disk, happend, hdisk, hall⟩ := hfile.append bs
  have hhand : hand s bs = ((taken, fault), s.withDisk disk) := by
    simp only [hand, h.place_eq, happend]
  obtain ⟨hfault, held, hstate, hheld⟩ := writeThrough_of_buffer_nil hempty hbs
  rw [hhand] at hfault hstate hheld
  refine ⟨?_, fun hnone => ?_⟩
  · rw [hstate]
    refine ⟨h.place_eq, bs.take taken, hdisk, List.take_prefix _ _, ?_⟩
    rcases hheld with rfl | rfl
    · exact Or.inl rfl
    · exact Or.inr (List.take_append_drop _ _)
  · have htaken : (hand s bs).1.2 = none := by
      rw [hhand, ← hnone, hfault]
    rw [writeThrough_of_taken hempty hbs htaken, hhand]
    rw [hall (hfault.symm.trans hnone), List.take_length] at hdisk
    refine ⟨h.place_eq, [], ?_, List.prefix_rfl, Or.inl hempty⟩
    rw [List.append_nil]
    exact hdisk

/-- A batch that is put to a writer which is not latched is torn, and it is all there if it was appended. -/
theorem append (h : s.Torn path place content []) (hopen : s.writer.readOnly = false)
    (hrun : (Writer.append records).run s = (outcome, s')) :
    s'.Torn path place content (Frame.encodeAll records) ∧
      (outcome = .ok () → s'.Torn path place (content ++ Frame.encodeAll records) []) := by
  cases records with
  | nil =>
    rw [append_nil hopen] at hrun
    cases hrun
    rw [show Frame.encodeAll [] = [] from rfl, List.append_nil]
    exact ⟨h, fun _ => h⟩
  | cons r rs =>
    obtain ⟨htorn, hwhole⟩ := h.writeThrough (Frame.encodeAll_ne_nil r rs)
    rw [run_append hopen (List.cons_ne_nil r rs)] at hrun
    cases hwrite : Writer.writeThrough s (Frame.encodeAll (r :: rs)) with
    | mk fault middle =>
      rw [hwrite] at hrun htorn hwhole
      cases fault with
      | some cause =>
        cases hrun
        exact ⟨htorn.of_eq rfl rfl rfl, nofun⟩
      | none =>
        have hreported {content batch : Bytes} (h : middle.Torn path place content batch) :
            s'.Torn path place content batch := by
          have hreport : State.Torn ⟨middle.writer, middle.machine.report (.batchAppended (r :: rs).length
              (Frame.encodeAll (r :: rs)).length)⟩ path place content batch := h.of_eq rfl rfl rfl
          have hlast : (Writer.syncByPolicy.run _).2 = s' := congrArg Prod.snd hrun
          exact hlast ▸ hreport.syncByPolicy
        exact ⟨hreported htorn, fun _ => hreported (hwhole rfl)⟩

end State.Torn

end Writer

end DurableLists

import DurableLists.Proofs.Frame.Chunks
import DurableLists.Proofs.Log.Append
import DurableLists.Proofs.Publication

/-!
# What a writer's latch tells

Batches and syncs are asked of a writer in any order, and its file answers them in any way. The writer is latched
exactly when an append has ended in a fault of the file or a sync has failed, and it stays so; a latched writer
refuses every batch and changes nothing. As long as it is not latched it holds nothing back, and its file has taken
the frames of all batches, in order and each once (`Writer.latched_or_intact_of_open`).

A fault leaves octets in the buffer that a later sync hands to the file again, so nothing is said of the file after
the first fault.
-/

set_option autoImplicit false

namespace DurableLists

namespace Writer

/-! ## Uses -/

/-- What is asked of a writer. -/
inductive Use where
  | append (records : List Record)
  | sync
  deriving DecidableEq, Repr

namespace Use

def call : Use → Attempt State Unit
  | .append records => Writer.append records
  | .sync => Writer.sync

/-- The octets that a use brings. -/
def octets : Use → Bytes
  | .append records => Frame.encodeAll records
  | .sync => []

/-- Whether an answer tells of a failure that is not a refusal. -/
def FailsBy (use : Use) (answer : Except Error Unit) : Prop :=
  match use with
  | .append _ => ∃ cause, answer = .error (.io cause)
  | .sync => ∃ e, answer = .error e

end Use

/-- The answers to uses one after another, and the state that is left. -/
def follow : List Use → State → List (Except Error Unit) × State
  | [], s => ([], s)
  | use :: uses, s =>
    let (answer, next) := use.call.run s
    let (answers, last) := follow uses next
    (answer :: answers, last)

variable {s s' t : State} {place : Location} {start : Disk} {bs : Bytes} {use : Use} {uses : List Use}
  {answer : Except Error Unit} {answers : List (Except Error Unit)} {records : List Record}

/-! ## The latch -/

/-- A sync fails only by a fault of the file, and then it latches the writer. -/
theorem readOnly_sync_iff (h : sync.run s = (answer, s')) :
    (s'.writer.readOnly = true ↔ s.writer.readOnly = true ∨ Use.sync.FailsBy answer) ∧
      (Use.sync.FailsBy answer ↔ ∃ cause, answer = .error (.io cause)) := by
  have hkept := readOnly_flushAndSync s
  rw [run_sync] at h
  cases hforce : flushAndSync s with
  | mk fault middle =>
    rw [hforce] at h hkept
    cases fault with
    | none =>
      cases h
      refine ⟨⟨fun hlatch => Or.inl (hkept.symm.trans hlatch), ?_⟩, ⟨nofun, nofun⟩⟩
      rintro (hlatch | ⟨_, h⟩)
      · exact hkept.trans hlatch
      · cases h
    | some cause =>
      cases h
      exact ⟨⟨fun _ => Or.inr ⟨_, rfl⟩, fun _ => rfl⟩, ⟨fun _ => ⟨_, rfl⟩, fun _ => ⟨_, rfl⟩⟩⟩

theorem readOnly_syncByPolicy_iff (h : syncByPolicy.run s = (answer, s')) :
    s'.writer.readOnly = true ↔ s.writer.readOnly = true ∨ ∃ cause, answer = .error (.io cause) := by
  obtain ⟨env, hrun | hrun⟩ := run_syncByPolicy s
  · obtain ⟨hlatch, hfails⟩ := readOnly_sync_iff (hrun.symm.trans h)
    rw [hlatch, hfails]
  · rw [hrun] at h
    cases h
    simp

theorem readOnly_append_iff (h : (append records).run s = (answer, s')) :
    s'.writer.readOnly = true ↔ s.writer.readOnly = true ∨ (Use.append records).FailsBy answer := by
  cases hlatch : s.writer.readOnly with
  | true =>
    rw [append_of_readOnly hlatch] at h
    cases h
    simp [hlatch]
  | false =>
    by_cases hrecords : records = []
    · subst hrecords
      rw [append_nil hlatch] at h
      cases h
      simp [hlatch, Use.FailsBy]
    · have hkept := readOnly_writeThrough s (Frame.encodeAll records)
      rw [run_append hlatch hrecords] at h
      cases hwrite : writeThrough s (Frame.encodeAll records) with
      | mk fault middle =>
        rw [hwrite] at h hkept
        cases fault with
        | none =>
          rw [readOnly_syncByPolicy_iff h, ← hlatch, ← hkept]
          rfl
        | some cause =>
          cases h
          simp [Use.FailsBy]

theorem readOnly_call_iff (h : use.call.run s = (answer, s')) :
    s'.writer.readOnly = true ↔ s.writer.readOnly = true ∨ use.FailsBy answer := by
  cases use with
  | append records => exact readOnly_append_iff h
  | sync => exact (readOnly_sync_iff h).1

theorem readOnly_follow_iff (h : follow uses s = (answers, t)) :
    t.writer.readOnly = true ↔ s.writer.readOnly = true ∨ ∃ p ∈ uses.zip answers, p.1.FailsBy p.2 := by
  induction uses generalizing s answers with
  | nil =>
    cases h
    simp
  | cons use uses ih =>
    cases hcall : use.call.run s with
    | mk answer next =>
      rw [follow, hcall] at h
      obtain ⟨rfl, hlast⟩ := Prod.mk.inj h
      have hrest : follow uses next = ((follow uses next).1, t) := Prod.ext rfl hlast
      rw [ih hrest, readOnly_call_iff hcall, List.zip_cons_cons, List.exists_mem_cons_iff, or_assoc]

/-! ## The buffer and the file -/

/-- Whether a writer is ready, and the file at its place has taken octets. -/
structure Intact (place : Location) (start : Disk) (bs : Bytes) (s : State) : Prop where
  ready : s.writer.Ready place
  takes : Disk.Takes place start bs s.machine.disk

namespace Intact

theorem sync (h : Intact place start bs s) (hrun : sync.run s = (.ok (), s')) : Intact place start bs s' := by
  obtain ⟨⟨hplace, hbuffer, hreadOnly⟩, htakes⟩ := h
  rw [run_sync, flushAndSync, flush_of_buffer_nil hbuffer] at hrun
  cases hsync : s.machine.disk.sync s.writer.place with
  | mk fault disk =>
    simp only [hsync] at hrun
    cases fault with
    | some cause => cases hrun
    | none =>
      cases hrun
      rw [hplace] at hsync
      exact ⟨⟨hplace, hbuffer, hreadOnly⟩, htakes.sync hsync⟩

theorem syncByPolicy (h : Intact place start bs s) (hrun : syncByPolicy.run s = (.ok (), s')) :
    Intact place start bs s' := by
  obtain ⟨env, hsync | hstay⟩ := run_syncByPolicy s
  · have hintact : Intact place start bs { s with machine.env := env } := ⟨h.ready, h.takes⟩
    exact hintact.sync (hsync.symm.trans hrun)
  · rw [hstay] at hrun
    cases hrun
    exact ⟨h.ready, h.takes⟩

theorem writeThrough (h : Intact place start bs s) {frames : Bytes} (hframes : frames ≠ [])
    (hrun : writeThrough s frames = (none, s')) : Intact place start (bs ++ frames) s' := by
  obtain ⟨⟨hplace, hbuffer, hreadOnly⟩, htakes⟩ := h
  obtain ⟨hfault, -⟩ := writeThrough_of_buffer_nil hbuffer hframes
  rw [hrun] at hfault
  have hs' : s' = (hand s frames).2 := by
    rw [← writeThrough_of_taken hbuffer hframes hfault.symm, hrun]
  have htook : s.machine.disk.append place frames = (((hand s frames).1.1, none), s'.machine.disk) := by
    rw [hs', show (none : Option IoError) = _ from hfault, ← hplace]
    rfl
  refine ⟨?_, htakes.append htook⟩
  rw [hs']
  exact ⟨hplace, hbuffer, hreadOnly⟩

theorem append (h : Intact place start bs s) (hrun : (append records).run s = (.ok (), s')) :
    Intact place start (bs ++ Frame.encodeAll records) s' := by
  cases records with
  | nil =>
    rw [append_nil h.ready.readOnly_eq] at hrun
    cases hrun
    rw [show Frame.encodeAll [] = [] from rfl, List.append_nil]
    exact h
  | cons r rs =>
    rw [run_append h.ready.readOnly_eq (List.cons_ne_nil r rs)] at hrun
    cases hwrite : Writer.writeThrough s (Frame.encodeAll (r :: rs)) with
    | mk fault middle =>
      rw [hwrite] at hrun
      cases fault with
      | some cause => cases hrun
      | none =>
        obtain ⟨hready, htakes⟩ := h.writeThrough (Frame.encodeAll_ne_nil r rs) hwrite
        have hreported : Intact place start (bs ++ Frame.encodeAll (r :: rs)) ⟨middle.writer,
            middle.machine.report (.batchAppended (r :: rs).length (Frame.encodeAll (r :: rs)).length)⟩ :=
          ⟨hready, htakes⟩
        exact hreported.syncByPolicy hrun

/-- A use that leaves the writer open has brought its octets to the file. -/
theorem call (h : Intact place start bs s) (hrun : use.call.run s = (answer, s'))
    (hopen : s'.writer.readOnly = false) : Intact place start (bs ++ use.octets) s' := by
  cases use with
  | append records =>
    cases answer with
    | error e => rw [of_append_error hrun] at hopen; cases hopen
    | ok => exact h.append hrun
  | sync =>
    cases answer with
    | error e => rw [of_sync_error hrun] at hopen; cases hopen
    | ok =>
      rw [Use.octets, List.append_nil]
      exact h.sync hrun

theorem follow (h : Intact place start bs s) (hrun : follow uses s = (answers, t))
    (hopen : t.writer.readOnly = false) : Intact place start (bs ++ uses.flatMap Use.octets) t := by
  induction uses generalizing s bs answers with
  | nil =>
    cases hrun
    rw [List.flatMap_nil, List.append_nil]
    exact h
  | cons use uses ih =>
    cases hcall : use.call.run s with
    | mk answer next =>
      rw [Writer.follow, hcall] at hrun
      have hrest : Writer.follow uses next = ((Writer.follow uses next).1, t) := Prod.ext rfl (Prod.mk.inj hrun).2
      have hnext : next.writer.readOnly = false := by
        rw [← Bool.not_eq_true, readOnly_follow_iff hrest] at hopen
        simpa using fun hs => hopen (Or.inl hs)
      rw [List.flatMap_cons, ← List.append_assoc]
      exact ih (h.call hcall hnext) hrest

end Intact

/-! ## Writers that have been opened -/

theorem ready_of_run_open {config : Persistence} {machine opened : Machine} {writer : Writer}
    (h : (Writer.open config).run machine = (.ok writer, opened)) :
    writer.Ready writer.place := by
  rw [Writer.open] at h
  obtain ⟨_, _, -, h⟩ := Attempt.of_run_bind h
  obtain ⟨_, _, -, h⟩ := Attempt.of_run_bind h
  obtain ⟨_, _, -, h⟩ := Attempt.of_run_bind h
  obtain ⟨_, _, -, h⟩ := Attempt.of_run_bind h
  cases h
  exact ⟨rfl, rfl, rfl⟩

theorem length_follow (uses : List Use) (s : State) : (follow uses s).1.length = uses.length := by
  induction uses generalizing s with
  | nil => rfl
  | cons use uses ih => exact congrArg (· + 1) (ih (use.call.run s).2)

/-- Whatever is asked of a writer since its opening, and whatever its file answers, the writer is latched exactly when
some append has ended in a fault or some sync has failed. Then it stays latched and refuses every batch, changing
nothing. Otherwise its buffer is empty, and its file has taken the frames of all batches, in order and each once. -/
theorem latched_or_intact_of_open {config : Persistence} {machine opened : Machine} {writer : Writer}
    (hopen : (Writer.open config).run machine = (.ok writer, opened))
    (hrun : follow uses ⟨writer, opened⟩ = (answers, s)) :
    answers.length = uses.length ∧
    (s.writer.readOnly = true ↔ ∃ p ∈ uses.zip answers, p.1.FailsBy p.2) ∧
    (s.writer.readOnly = true →
      (∀ records, (append records).run s = (.error .latched, s)) ∧
      ∀ later, (follow later s).2.writer.readOnly = true) ∧
    (s.writer.readOnly = false →
      s.writer.buffer = [] ∧
      Disk.Takes writer.place opened.disk (uses.flatMap Use.octets) s.machine.disk ∧
      ∀ file, opened.disk.node? writer.place = some (.regular file) →
        ∃ last, s.machine.disk.node? writer.place = some (.regular last) ∧
          last.content = file.content ++ uses.flatMap Use.octets) := by
  have hready : writer.Ready writer.place := ready_of_run_open hopen
  refine ⟨?_, ?_, fun hlatch => ⟨append_of_readOnly hlatch, fun later => ?_⟩, fun hunlatched => ?_⟩
  · rw [← length_follow uses ⟨writer, opened⟩, hrun]
  · rw [readOnly_follow_iff hrun]
    simp [hready.readOnly_eq]
  · exact (readOnly_follow_iff (Prod.ext rfl rfl)).mpr (Or.inl hlatch)
  · have hopened : Intact writer.place opened.disk [] ⟨writer, opened⟩ := ⟨hready, .refl⟩
    obtain ⟨hstill, htakes⟩ := hopened.follow hrun hunlatched
    exact ⟨hstill.buffer_eq, htakes, fun file hfile => htakes.content hfile⟩

/-- Two batches, of which the second does not fit in the file, a sync and a batch without records. -/
def fillingUses : List Use :=
  [.append [Session.sampleRecord [97]], .append [Session.sampleRecord [98]], .sync, .append []]

/-- What opening the log of a file that fills up answers. -/
def fillingWriter : Writer where
  path := "l"
  place := ["home", "work", "l"]
  policy := .never
  interval := .of 1 0
  buffer := []
  lastSync := 0
  readOnly := false

def filledState : State :=
  (follow fillingUses ⟨fillingWriter,
    ((Writer.open Session.sampleConfig.persistence).run Session.fillingMachine).2⟩).2

set_option maxRecDepth 20000 in
theorem latched_of_filling_uses : filledState.writer.readOnly = true ∧
    ∀ records, (append records).run filledState = (.error .latched, filledState) := by
  have hopen : (Writer.open Session.sampleConfig.persistence).run Session.fillingMachine =
      (.ok fillingWriter, ((Writer.open Session.sampleConfig.persistence).run Session.fillingMachine).2) :=
    Prod.ext (by cbv) rfl
  have hrun : follow fillingUses ⟨fillingWriter,
      ((Writer.open Session.sampleConfig.persistence).run Session.fillingMachine).2⟩ =
      ([.ok (), .error (.io .noSpace), .error (.io .noSpace), .error .latched], filledState) :=
    Prod.ext (by cbv) (by rw [filledState])
  obtain ⟨-, hiff, hlatched, -⟩ := latched_or_intact_of_open hopen hrun
  have hlatch : filledState.writer.readOnly = true :=
    hiff.mpr ⟨(.sync, .error (.io .noSpace)), by simp [fillingUses], _, rfl⟩
  exact ⟨hlatch, (hlatched hlatch).1⟩

end Writer

end DurableLists

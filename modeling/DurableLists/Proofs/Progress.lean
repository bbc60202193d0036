import DurableLists.Proofs.Frame.Bounds
import DurableLists.Proofs.Log.Load

/-!
# Reading a log makes progress and ends

Each record that a scan accepts has taken a frame off the buffer, which is at least as long as the header and the
fixed part of a body. So along a reading (`Scan.Reached`) the octets that are consumed and those in the buffer are
all that have been read, and there are no more records than such frames fit into them (`Scan.Accounts`). A reading
ends with a buffer that waits for more, or at a frame that is corrupt (`Scan.ends_readAll`); with the safety of
reading one frame, this is `LoadedLog.read_safe_and_bounded`.
-/

set_option autoImplicit false

namespace DurableLists

namespace Scan

/-! ## One step -/

theorem consumed_accept (scan : Scan) (r : Record) (rest : Bytes) :
    (scan.accept r rest).consumed = scan.consumed + Frame.announced scan.buffer := by
  unfold accept
  split <;> rfl

theorem fileLength_accept (scan : Scan) (r : Record) (rest : Bytes) :
    (scan.accept r rest).fileLength = scan.fileLength := by
  unfold accept
  split <;> rfl

theorem committedLength_accept (scan : Scan) (r : Record) (rest : Bytes) :
    (scan.accept r rest).committedLength =
      if r.isCommitted then scan.consumed + Frame.announced scan.buffer else scan.committedLength := by
  unfold accept
  split <;> rfl

/-! ## The scans of a reading -/

/-- The scans that a reading comes to, with the chunks that it has been fed and the records that it has accepted: it
is fed the next chunk when its buffer waits for more octets. -/
inductive Reached : List Bytes → List Record → Scan → Prop where
  | start : Reached [] [] start
  | feed {fed : List Bytes} {accepted : List Record} {scan : Scan} (chunk : Bytes)
      (h : Reached fed accepted scan) (hwaits : Frame.EndsIn scan.buffer .waits) :
      Reached (fed ++ [chunk]) accepted (scan.feed chunk)
  | accept {fed : List Bytes} {accepted : List Record} {scan : Scan} {r : Record} {rest : Bytes}
      (h : Reached fed accepted scan) (hfound : Frame.decode scan.buffer = (.record r, rest)) :
      Reached fed (accepted ++ [r]) (scan.accept r rest)

/-- How the numbers of a scan account for what it has been fed and has accepted. -/
structure Accounts (fed : List Bytes) (accepted : List Record) (scan : Scan) : Prop where
  read : scan.fileLength = fed.flatten.length
  split : scan.consumed + scan.buffer.length = scan.fileLength
  progress : (Frame.headerLength + Frame.fixedLength) * accepted.length ≤ scan.consumed
  committed : scan.committedLength ≤ scan.consumed

variable {fed chunks : List Bytes} {accepted : List Record} {scan : Scan} {r : Record} {rest : Bytes}

theorem accounts_start : Accounts [] [] start := ⟨rfl, rfl, Nat.le_refl 0, Nat.le_refl 0⟩

theorem Accounts.feed (h : Accounts fed accepted scan) (chunk : Bytes) :
    Accounts (fed ++ [chunk]) accepted (scan.feed chunk) where
  read := by
    rw [List.flatten_append, List.flatten_singleton, List.length_append, ← h.read]
    rfl
  split := by
    simp only [Scan.feed, List.length_append, ← h.split, Nat.add_assoc]
  progress := h.progress
  committed := h.committed

theorem Accounts.accept (h : Accounts fed accepted scan) (hfound : Frame.decode scan.buffer = (.record r, rest)) :
    Accounts fed (accepted ++ [r]) (scan.accept r rest) := by
  have hwhole := Frame.whole_of_record hfound
  have hrest : rest = scan.buffer.drop (Frame.announced scan.buffer) := by
    rw [Frame.decode_of_whole hwhole] at hfound
    exact (Prod.mk.inj hfound).2.symm
  obtain ⟨hfixed, hlong⟩ := hwhole
  have hleast : Frame.headerLength + Frame.fixedLength ≤ Frame.announced scan.buffer :=
    Nat.add_le_add_left hfixed Frame.headerLength
  refine ⟨?_, ?_, ?_, ?_⟩
  · rw [fileLength_accept, h.read]
  · rw [consumed_accept, buffer_accept, fileLength_accept, hrest, List.length_drop, ← h.split]
    omega
  · rw [consumed_accept, List.length_append, List.length_singleton, Nat.mul_succ]
    exact Nat.add_le_add h.progress hleast
  · rw [committedLength_accept, consumed_accept]
    have hcommitted := h.committed
    split <;> omega

theorem Reached.accounts (h : Reached fed accepted scan) : Accounts fed accepted scan := by
  induction h with
  | start => exact accounts_start
  | feed chunk _ _ ih => exact ih.feed chunk
  | accept _ hfound ih => exact ih.accept hfound

theorem Accounts.length_le (h : Accounts fed accepted scan) (hfed : fed <+: chunks) :
    accepted.length ≤ chunks.flatten.length / (Frame.headerLength + Frame.fixedLength) := by
  obtain ⟨more, rfl⟩ := hfed
  have hprogress := h.progress
  have hsplit := h.split
  rw [Nat.le_div_iff_mul_le (by decide), Nat.mul_comm, List.flatten_append, List.length_append, ← h.read]
  omega

theorem Accounts.committedLength_le (h : Accounts fed accepted scan) : scan.committedLength ≤ scan.fileLength := by
  rw [← h.split]
  exact Nat.le_add_right_of_le h.committed

/-! ## A whole reading -/

/-- How a reading of chunks ends: at a scan that it has come to with all of them, and whose buffer waits for more
octets, or at one that it has come to with some of them, and whose buffer is corrupt. -/
def Ends (chunks : List Bytes) (result : Option Corruption × Scan) : Prop :=
  ∃ fed accepted last, Reached fed accepted last ∧ fed <+: chunks ∧
    accepted.length ≤ chunks.flatten.length / (Frame.headerLength + Frame.fixedLength) ∧
    ((fed = chunks ∧ Frame.EndsIn last.buffer .waits ∧ result = (none, last)) ∨
      ∃ cause rest, Frame.decode last.buffer = (.corrupt cause, rest) ∧
        result = (some cause, last.withBuffer rest))

theorem drain_ends (h : Reached fed accepted scan) :
    ∃ accepted last, Reached fed accepted last ∧
      ((Frame.EndsIn last.buffer .waits ∧ scan.drain = (none, last)) ∨
        ∃ cause rest, Frame.decode last.buffer = (.corrupt cause, rest) ∧
          scan.drain = (some cause, last.withBuffer rest)) := by
  fun_induction drain scan generalizing accepted with
  | case1 scan rest hfound =>
    have hpartial := Frame.partial_of_incomplete (congrArg Prod.fst hfound)
    exact ⟨accepted, scan, h, .inl ⟨Frame.decode_of_partial hpartial, rfl⟩⟩
  | case2 scan cause rest hfound => exact ⟨accepted, scan, h, .inr ⟨cause, rest, hfound, rfl⟩⟩
  | case3 scan r rest hfound _ ih => exact ih (h.accept hfound)

theorem readAll_ends (h : Reached fed accepted scan) (hwaits : Frame.EndsIn scan.buffer .waits) :
    Ends (fed ++ chunks) (scan.readAll chunks) := by
  induction chunks generalizing fed accepted scan with
  | nil =>
    rw [List.append_nil, readAll]
    exact ⟨fed, accepted, scan, h, List.prefix_rfl, h.accounts.length_le List.prefix_rfl,
      .inl ⟨rfl, hwaits, rfl⟩⟩
  | cons chunk chunks ih =>
    obtain ⟨accepted, last, hlast, ⟨hwaits, hdrain⟩ | ⟨cause, rest, hfound, hdrain⟩⟩ := drain_ends (h.feed chunk hwaits)
    · rw [readAll_cons, hdrain, List.append_cons]
      exact ih hlast hwaits
    · have hfed : fed ++ [chunk] <+: fed ++ [chunk] ++ chunks := List.prefix_append _ _
      rw [readAll_cons, hdrain, List.append_cons]
      exact ⟨_, accepted, last, hlast, hfed, hlast.accounts.length_le hfed, .inr ⟨cause, rest, hfound, rfl⟩⟩

theorem ends_readAll (chunks : List Bytes) : Ends chunks (start.readAll chunks) :=
  readAll_ends .start (Frame.decode_of_partial (.inl (by decide)))

end Scan

namespace LoadedLog

/-- A file that can be read is refused as corrupt, or all of it has been read, and what is closed is in it. -/
theorem read_ends {m : Machine} {path : String} {place : Location} {node : Node} {chunks : List Bytes}
    (h : m.disk.find path = .ok (place, node)) (hchunks : Disk.readChunks node = .ok chunks) :
    (∃ cause env, (read path).run m = (.error (.logCorrupted cause), { m with env })) ∨
      ∃ log env, (read path).run m = (.ok log, { m with env }) ∧ log.fileLength = chunks.flatten.length ∧
        log.committedLength ≤ log.fileLength := by
  rw [run_read_chunks h hchunks]
  obtain ⟨fed, accepted, last, hlast, -, -, ⟨rfl, -, hread⟩ | ⟨cause, rest, -, hread⟩⟩ := Scan.ends_readAll chunks
  · obtain ⟨env, hrun⟩ := run_ofChunks m hread
    exact .inr ⟨last.log, env, hrun, hlast.accounts.read, hlast.accounts.committedLength_le⟩
  · obtain ⟨env, hrun⟩ := run_ofChunks_corrupt m (congrArg Prod.fst hread)
    exact .inl ⟨cause, env, hrun⟩

/-- Any octets are read safely: within the frame at their front, and to one of three ends, two of which leave them alone
while the third takes a frame of at least 45 octets. So every scan that a reading comes to accounts for what it has been
fed; every reading ends, after no more records than such frames fit into the file; and of a file that is read nothing is
closed beyond its end. -/
theorem read_safe_and_bounded :
    (∀ buffer, Frame.SafelyRead buffer) ∧
      (∀ fed accepted scan, Scan.Reached fed accepted scan → Scan.Accounts fed accepted scan) ∧
      (∀ chunks, Scan.Ends chunks (Scan.start.readAll chunks)) ∧
      ∀ (m : Machine) (path : String) (place : Location) (node : Node) (chunks : List Bytes),
        m.disk.find path = .ok (place, node) → Disk.readChunks node = .ok chunks →
        (∃ cause env, (read path).run m = (.error (.logCorrupted cause), { m with env })) ∨
          ∃ log env, (read path).run m = (.ok log, { m with env }) ∧ log.fileLength = chunks.flatten.length ∧
            log.committedLength ≤ log.fileLength :=
  ⟨Frame.safelyRead, fun _ _ _ h => h.accounts, Scan.ends_readAll,
    fun _ _ _ _ _ h hchunks => read_ends h hchunks⟩

end LoadedLog

end DurableLists

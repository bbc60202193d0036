import DurableLists.Log.Reader
import DurableLists.Proofs.Frame.Chunks

/-!
# Scanning a log

A scan goes through the records that its buffer is read as, one by one (`drain_eq`), and in chunks through
those that the chunks are read as (`readAll_eq`); so the cutting into chunks is seen in nothing but the
octets that a fault leaves unread. `after` is the scan at the end of the frames of some records. Every content
of a file is such frames and a rest that is incomplete or corrupt, so `readAll_frames` and
`readAll_frames_corrupt` say what every content reads as.
-/

set_option autoImplicit false

namespace DurableLists

namespace Scan

/-! ## Reading frames -/

def step (scan : Scan) (r : Record) : Scan := { scan with buffer := Frame.encode r }.accept r []

def steps (scan : Scan) (rs : List Record) : Scan := rs.foldl step scan

def withBuffer (scan : Scan) (buffer : Bytes) : Scan := { scan with buffer }

theorem accept_eq_step {scan : Scan} {r : Record} {rest : Bytes} (hfits : Frame.Fits r)
    (h : scan.buffer = Frame.encode r ++ rest) : scan.accept r rest = (scan.step r).withBuffer rest := by
  have hannounced : Frame.announced scan.buffer = Frame.announced (Frame.encode r) := by
    rw [h, Frame.announced_encode_append r _ hfits, Frame.announced_encode hfits]
  simp only [step, accept, withBuffer, hannounced]
  split <;> rfl

theorem steps_cons (scan : Scan) (r : Record) (rs : List Record) :
    scan.steps (r :: rs) = (scan.step r).steps rs := rfl

theorem steps_append (scan : Scan) (rs ts : List Record) :
    scan.steps (rs ++ ts) = (scan.steps rs).steps ts := List.foldl_append

/-- The scan after the frames of records, from the start of a file. -/
def after (rs : List Record) : Scan := start.steps rs

theorem after_append (rs ts : List Record) : after (rs ++ ts) = (after rs).steps ts := steps_append start rs ts

theorem after_concat (rs : List Record) (r : Record) : after (rs ++ [r]) = (after rs).step r :=
  after_append rs [r]

/-! ## One more frame -/

def waitingOf (scan : Scan) (txId : UInt64) : List Record := (scan.waiting[txId]?).getD []

theorem step_open (scan : Scan) {r : Record} (h : r.isCommitted = false) :
    scan.step r = { scan with
      buffer := []
      consumed := scan.consumed + Frame.announced (Frame.encode r)
      waiting := scan.waiting.insert r.txId (r :: scan.waitingOf r.txId)
      lastTxId := max scan.lastTxId r.txId } := by
  simp only [step, accept, h, Bool.false_eq_true, if_false, waitingOf]

theorem step_close (scan : Scan) {r : Record} (h : r.isCommitted = true) :
    scan.step r = { scan with
      buffer := []
      consumed := scan.consumed + Frame.announced (Frame.encode r)
      waiting := scan.waiting.erase r.txId
      released := (r.txId, (r :: scan.waitingOf r.txId).reverse) :: scan.released
      lastTxId := max scan.lastTxId r.txId
      committedLength := scan.consumed + Frame.announced (Frame.encode r) } := by
  simp only [step, accept, h, if_true, waitingOf]

theorem consumed_step (scan : Scan) {r : Record} (hfits : Frame.Fits r) :
    (scan.step r).consumed = scan.consumed + (Frame.encode r).length := by
  cases h : r.isCommitted with
  | false => rw [step_open _ h, Frame.announced_encode hfits]
  | true => rw [step_close _ h, Frame.announced_encode hfits]

theorem lastTxId_step (scan : Scan) (r : Record) : (scan.step r).lastTxId = max scan.lastTxId r.txId := by
  cases h : r.isCommitted with
  | false => rw [step_open _ h]
  | true => rw [step_close _ h]

/-- A record that closes nothing waits under its id behind those that wait there; one that closes takes them
out. Under other ids all stays. -/
theorem getElem?_waiting_step (scan : Scan) (r : Record) (txId : UInt64) : (scan.step r).waiting[txId]? =
    if r.txId = txId then
      if r.isCommitted then none else some (r :: scan.waitingOf txId) else scan.waiting[txId]? := by
  cases h : r.isCommitted with
  | false =>
    rw [step_open _ h, Std.ExtTreeMap.getElem?_insert]
    by_cases hid : r.txId = txId <;> simp [hid]
  | true =>
    rw [step_close _ h, Std.ExtTreeMap.getElem?_erase]
    by_cases hid : r.txId = txId <;> simp [hid]

theorem waitingOf_step (scan : Scan) (r : Record) (txId : UInt64) : (scan.step r).waitingOf txId =
    if r.txId = txId then
      if r.isCommitted then [] else r :: scan.waitingOf txId else scan.waitingOf txId := by
  rw [waitingOf, getElem?_waiting_step]
  split
  · split <;> rfl
  · rfl

/-! ## Reading in chunks -/

def withLength (scan : Scan) (fileLength : Nat) : Scan := { scan with fileLength }

theorem step_withLength (scan : Scan) (fileLength : Nat) (r : Record) :
    (scan.withLength fileLength).step r = (scan.step r).withLength fileLength := by
  cases h : r.isCommitted with
  | false =>
    rw [step_open _ h, step_open _ h]
    rfl
  | true =>
    rw [step_close _ h, step_close _ h]
    rfl

theorem steps_withLength (rs : List Record) (scan : Scan) (fileLength : Nat) :
    (scan.withLength fileLength).steps rs = (scan.steps rs).withLength fileLength := by
  induction rs generalizing scan with
  | nil => rfl
  | cons r rs ih => rw [steps_cons, steps_cons, step_withLength, ih]

theorem steps_withBuffer (rs : List Record) (scan : Scan) (buffer later : Bytes) :
    ((scan.withBuffer buffer).steps rs).withBuffer later = (scan.steps rs).withBuffer later := by
  cases rs with
  | nil => rfl
  | cons r rs => rfl

/-- A scan goes through the records that its buffer is read as. -/
theorem drain_eq (scan : Scan) : scan.drain = ((Frame.decodeAll scan.buffer).fault,
    (scan.steps (Frame.decodeAll scan.buffer).records).withBuffer (Frame.decodeAll scan.buffer).rest) := by
  fun_induction drain scan with
  | case1 scan rest hfound =>
    rw [Frame.decodeAll_incomplete (by rw [hfound])]
    rfl
  | case2 scan cause rest hfound =>
    rw [Frame.decodeAll_corrupt hfound]
    rfl
  | case3 scan r rest hfound _ ih =>
    obtain ⟨hfits, hbuffer⟩ := Frame.encode_of_decode hfound
    rw [Frame.decodeAll_record hfound, ih, buffer_accept, accept_eq_step hfits hbuffer, steps_withBuffer]
    rfl

/-- The scan after what some octets of a file are read as. -/
def through (scan : Scan) (d : Frame.Decoded) (fileLength : Nat) : Scan :=
  ((scan.steps d.records).withLength fileLength).withBuffer d.rest

theorem through_through (scan : Scan) (d e : Frame.Decoded) (earlier fileLength : Nat) :
    (scan.through d earlier).through e fileLength = scan.through (e.after d.records) fileLength := by
  have hsteps : ((scan.through d earlier).steps e.records).withBuffer e.rest =
      (((scan.steps d.records).steps e.records).withLength earlier).withBuffer e.rest := by
    rw [through, steps_withBuffer, steps_withLength]
  have hboth := (steps_append scan d.records e.records).symm
  calc (scan.through d earlier).through e fileLength
      = (((scan.through d earlier).steps e.records).withBuffer e.rest).withLength fileLength := rfl
    _ = scan.through (e.after d.records) fileLength := by
        rw [hsteps, hboth]
        rfl

theorem drain_feed (scan : Scan) (chunk : Bytes) :
    (scan.feed chunk).drain = ((Frame.decodeAll (scan.buffer ++ chunk)).fault,
      scan.through (Frame.decodeAll (scan.buffer ++ chunk)) (scan.fileLength + chunk.length)) := by
  have hfeed : scan.feed chunk =
      (scan.withLength (scan.fileLength + chunk.length)).withBuffer (scan.buffer ++ chunk) := rfl
  rw [drain_eq, hfeed, steps_withBuffer, steps_withLength]
  rfl

theorem incomplete_of_drain {scan last : Scan} (h : scan.drain = (none, last)) :
    (Frame.decode last.buffer).1 = .incomplete := by
  fun_induction drain scan with
  | case1 scan rest hfound =>
    cases h
    rw [hfound]
  | case2 => cases h
  | case3 scan r rest _ _ ih => exact ih h

theorem feed_nil (scan : Scan) : scan.feed [] = scan := by
  rw [feed, List.append_nil]
  rfl

theorem feed_feed (scan : Scan) (first second : Bytes) :
    (scan.feed first).feed second = scan.feed (first ++ second) := by
  simp only [feed, List.append_assoc, List.length_append, Nat.add_assoc]

/-- A chunk that does not bring all that is missing leaves the buffer waiting. -/
theorem drain_feed_of_lt {scan : Scan} {chunk : Bytes} (hwaits : (Frame.decode scan.buffer).1 = .incomplete)
    (h : chunk.length < scan.missing) : (scan.feed chunk).drain = (none, scan.feed chunk) ∧
      (scan.feed chunk).missing = scan.missing - chunk.length := by
  by_cases hheader : scan.buffer.length < Frame.headerLength
  · rw [missing, if_pos hheader] at h
    exact absurd h (Nat.not_lt_zero _)
  · have hmissing : scan.missing = Frame.announced scan.buffer - scan.buffer.length := if_neg hheader
    have hfield : Frame.field 4 4 (scan.buffer ++ chunk) = Frame.field 4 4 scan.buffer :=
      Frame.field_append_left _ _ _ _ (Nat.le_of_not_lt hheader)
    have hannounced : Frame.announced (scan.buffer ++ chunk) = Frame.announced scan.buffer := by
      rw [Frame.announced, hfield, Frame.announced]
    have hlonger : (scan.buffer ++ chunk).length < Frame.announced scan.buffer := by
      rw [List.length_append]
      omega
    obtain ⟨hfixed, -⟩ := (Frame.partial_of_incomplete hwaits).resolve_left hheader
    have hpartial : Frame.Partial (scan.feed chunk).buffer := Or.inr ⟨hfield ▸ hfixed, hannounced ▸ hlonger⟩
    have hstill : ¬ (scan.feed chunk).buffer.length < Frame.headerLength := by
      rw [feed, List.length_append]
      omega
    refine ⟨?_, ?_⟩
    · rw [drain_eq, Frame.decodeAll_incomplete (by rw [Frame.decode_of_partial hpartial])]
      rfl
    · rw [missing, if_neg hstill, hmissing, feed, hannounced, List.length_append, Nat.sub_add_eq]

theorem readAll_gather {scan : Scan} (hwaits : (Frame.decode scan.buffer).1 = .incomplete) (chunks : List Bytes) :
    (scan.feed (gather scan.missing chunks).1).readAll (gather scan.missing chunks).2 = scan.readAll chunks := by
  cases chunks with
  | nil => rw [gather, feed_nil]
  | cons chunk chunks =>
    rw [gather]
    split
    · rename_i hlt
      obtain ⟨hdrain, hmissing⟩ := drain_feed_of_lt hwaits hlt
      have hread : scan.readAll (chunk :: chunks) =
          ((scan.feed chunk).feed (gather (scan.feed chunk).missing chunks).1).readAll
            (gather (scan.feed chunk).missing chunks).2 := by
        rw [readAll, hdrain]
      rw [hread, hmissing, feed_feed]
    · rw [feed_nil]

/-- Chunks are read one by one. -/
theorem readAll_cons (scan : Scan) (chunk : Bytes) (chunks : List Bytes) :
    scan.readAll (chunk :: chunks) =
      match (scan.feed chunk).drain with
      | (some cause, scan) => (some cause, scan)
      | (none, scan) => scan.readAll chunks := by
  rw [readAll]
  cases hdrain : (scan.feed chunk).drain with
  | mk fault drained =>
    cases fault with
    | some cause => rfl
    | none => exact readAll_gather (incomplete_of_drain hdrain) chunks

/-- A scan goes through the records that chunks are read as; if there was no fault, it has read them all. -/
theorem readAll_eq (scan : Scan) (chunks : List Bytes) : ∃ fileLength,
    scan.readAll chunks = ((Frame.decodeChunks scan.buffer chunks).fault,
      scan.through (Frame.decodeChunks scan.buffer chunks) fileLength) ∧
      ((Frame.decodeChunks scan.buffer chunks).fault = none →
        fileLength = scan.fileLength + chunks.flatten.length) := by
  induction chunks generalizing scan with
  | nil =>
    rw [readAll]
    exact ⟨scan.fileLength, rfl, fun _ => rfl⟩
  | cons chunk chunks ih =>
    rw [readAll_cons, drain_feed]
    cases hfault : (Frame.decodeAll (scan.buffer ++ chunk)).fault with
    | some cause =>
      rw [Frame.decodeChunks_cons_of_fault chunks hfault, hfault]
      exact ⟨_, rfl, fun hnone => absurd hnone (Option.some_ne_none cause)⟩
    | none =>
      rw [Frame.decodeChunks_cons chunks hfault]
      obtain ⟨fileLength, hlater, hlength⟩ := ih (scan.through (Frame.decodeAll (scan.buffer ++ chunk))
        (scan.fileLength + chunk.length))
      refine ⟨fileLength, hlater.trans ?_, fun hnone => ?_⟩
      · rw [through_through]
        rfl
      · rw [hlength hnone, List.flatten_cons, List.length_append, ← Nat.add_assoc]
        rfl

/-- The scan of the frames of records that fit, followed by an incomplete rest. -/
theorem readAll_frames {chunks : List Bytes} {rs : List Record} {tail : Bytes}
    (hcontent : chunks.flatten = Frame.encodeAll rs ++ tail) (hfits : ∀ r ∈ rs, Frame.Fits r)
    (htail : (Frame.decode tail).1 = .incomplete) :
    start.readAll chunks = (none, (after rs).through ⟨[], none, tail⟩ chunks.flatten.length) := by
  have hall : Frame.decodeAll chunks.flatten = ⟨rs, none, tail⟩ := by
    rw [hcontent, Frame.decodeAll_encodeAll_append rs tail hfits, Frame.decodeAll_incomplete htail]
    simp only [Frame.Decoded.after, List.append_nil]
  have hagrees : (Frame.decodeChunks start.buffer chunks).Agrees (Frame.decodeAll chunks.flatten) :=
    Frame.agrees_decodeAll chunks
  rw [hall] at hagrees
  obtain ⟨fileLength, hread, hlength⟩ := readAll_eq start chunks
  rw [hagrees.eq_of_fault_eq_none rfl] at hread hlength
  rw [hread, hlength rfl, start, Nat.zero_add]
  rfl

theorem readAll_frames_corrupt {chunks : List Bytes} {rs : List Record} {tail : Bytes}
    (hcontent : chunks.flatten = Frame.encodeAll rs ++ tail) (hfits : ∀ r ∈ rs, Frame.Fits r)
    {cause : Corruption} (htail : (Frame.decode tail).1 = .corrupt cause) :
    (start.readAll chunks).1 = some cause := by
  have hfound : Frame.decode tail = (.corrupt cause, (Frame.decode tail).2) := Prod.ext htail rfl
  have hagrees : (Frame.decodeChunks start.buffer chunks).Agrees (Frame.decodeAll chunks.flatten) :=
    Frame.agrees_decodeAll chunks
  obtain ⟨-, hfault, -⟩ := hagrees
  rw [hcontent, Frame.decodeAll_encodeAll_append rs tail hfits,
    Frame.decodeAll_corrupt hfound] at hfault
  obtain ⟨fileLength, hread, -⟩ := readAll_eq start chunks
  rw [hread]
  exact hfault

theorem flatten_chunks (size : Nat) (hsize : size ≠ 0) (bs : Bytes) :
    (Disk.chunks size bs).flatten = bs := by
  fun_induction Disk.chunks size bs with
  | case1 bs h => simpa [hsize] using h
  | case2 bs h ih => rw [List.flatten_cons, ih, List.take_append_drop]

end Scan

end DurableLists

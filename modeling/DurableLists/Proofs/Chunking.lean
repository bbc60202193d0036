import DurableLists.Proofs.Log.Load
import DurableLists.Proofs.Session.Starts

/-!
# How a log comes in chunks

Two ways to cut the same octets into chunks give the same records and the same first fault, and if there is
none, they leave the same octets (`Frame.agrees_of_flatten_eq`). The scan goes through these records, and a
fault reports nothing but what they have closed, so a log is read alike in all chunks that its content comes
in (`LoadedLog.read_of_chunks`).
-/

set_option autoImplicit false

namespace DurableLists

theorem Frame.agrees_of_flatten_eq {chunks others : List Bytes} (h : chunks.flatten = others.flatten) :
    (decodeChunks [] chunks).Agrees (decodeChunks [] others) := by
  have hothers := (agrees_decodeAll others).symm
  rw [← h] at hothers
  exact (agrees_decodeAll chunks).trans hothers

namespace LoadedLog

theorem ofChunks_of_fault {chunks : List Bytes} {cause : Corruption} {scan : Scan}
    (h : Scan.start.readAll chunks = (some cause, scan)) : ofChunks chunks =
      (Machine.onEnv (Env.emitAll scan.closings) >>= fun _ => throw (.logCorrupted cause)) := by
  rw [ofChunks, h]

theorem ofChunks_eq_of_flatten_eq {chunks others : List Bytes} (h : chunks.flatten = others.flatten) :
    ofChunks chunks = ofChunks others := by
  have hagrees : (Frame.decodeChunks Scan.start.buffer chunks).Agrees
    (Frame.decodeChunks Scan.start.buffer others) := Frame.agrees_of_flatten_eq h
  obtain ⟨fileLength, hread, hlength⟩ := Scan.readAll_eq .start chunks
  obtain ⟨otherLength, hother, hotherLength⟩ := Scan.readAll_eq .start others
  cases hfault : (Frame.decodeChunks Scan.start.buffer others).fault with
  | none =>
    have hsame := hagrees.eq_of_fault_eq_none hfault
    have hlengths : fileLength = otherLength := by
      rw [hlength (hsame ▸ hfault), hotherLength hfault, h]
    have hscans : Scan.start.readAll chunks = Scan.start.readAll others := by
      rw [hread, hother, hsame, hlengths]
    rw [ofChunks, ofChunks, hscans]
  | some cause =>
    obtain ⟨hrecords, hfaults, -⟩ := hagrees
    rw [hfaults, hfault] at hread
    rw [hfault] at hother
    rw [ofChunks_of_fault hread, ofChunks_of_fault hother]
    -- A fault reports the transactions closed until then, and the records say which these are.
    have hclosings : (Scan.start.through (Frame.decodeChunks Scan.start.buffer chunks) fileLength).closings =
        (Scan.start.through (Frame.decodeChunks Scan.start.buffer others) otherLength).closings :=
      congrArg (fun rs => (Scan.start.steps rs).closings) hrecords
    rw [hclosings]

/-- However octets are cut into chunks, reading these finds the same records and the same first fault, or none
and the same octets left; and a log of these octets is read as it is from any such chunks. -/
theorem read_of_chunks {chunks others : List Bytes} (h : chunks.flatten = others.flatten) :
    (Frame.decodeChunks [] chunks).Agrees (Frame.decodeChunks [] others) ∧
      ofChunks chunks = ofChunks others ∧
      ∀ (m : Machine) (path : String) (place : Location) (file : File),
        m.disk.find path = .ok (place, .regular file) → file.content = chunks.flatten →
        (read path).run m = (ofChunks chunks).run m := by
  refine ⟨Frame.agrees_of_flatten_eq h, ofChunks_eq_of_flatten_eq h, ?_⟩
  intro m path place file hfind hcontent
  have hchunks := Scan.flatten_chunks Disk.chunkSize (by decide) file.content
  rw [run_read hfind, ofChunks_eq_of_flatten_eq (hchunks.trans hcontent)]

end LoadedLog

namespace Session

/-- A frame that is cut in its header and in its body, and three octets of another one. -/
theorem read_sample_in_chunks :
    let chunks := [[133, 200, 73], [70, 40, 0, 0, 0, 1, 0, 0, 0, 0, 0, 0, 0, 100, 0, 0, 0, 0, 0, 0, 0],
      [0, 0, 0, 0, 2, 0, 3, 0, 1, 1, 0, 0, 0, 1, 0, 0, 0, 1, 0, 0, 0, 98, 107, 97, 9], [9, 9]]
    Frame.decodeChunks [] chunks = ⟨[sampleSealed], none, [9, 9, 9]⟩ ∧
      (LoadedLog.read sampleConfig.persistence.logPath).run (sampleMachine chunks.flatten) =
        (LoadedLog.ofChunks chunks).run (sampleMachine chunks.flatten) := by
  intro chunks
  have hsame : chunks.flatten = [Frame.encode sampleSealed ++ [9, 9, 9]].flatten := by
    rw [encode_sampleSealed]
    rfl
  have hwhole : Frame.decodeAll (Frame.encode sampleSealed ++ [9, 9, 9]) =
      ⟨[sampleSealed], none, [9, 9, 9]⟩ := by
    have hframes := Frame.decodeAll_encodeAll_append [sampleSealed] [9, 9, 9] (by decide)
    have htail : (Frame.decode [9, 9, 9]).1 = .incomplete := rfl
    rwa [Frame.encodeAll_cons, Frame.encodeAll_nil, List.append_nil, Frame.decodeAll_incomplete htail] at hframes
  obtain ⟨file, hfind, hcontent, -⟩ := holds_sampleMachine chunks.flatten
  obtain ⟨hagrees, -, hread⟩ := LoadedLog.read_of_chunks hsame
  refine ⟨?_, hread _ _ _ _ hfind hcontent⟩
  have hone : Frame.decodeChunks [] [Frame.encode sampleSealed ++ [9, 9, 9]] =
      ⟨[sampleSealed], none, [9, 9, 9]⟩ := by
    rw [Frame.decodeChunks_cons [] (by rw [List.nil_append, hwhole]), List.nil_append, hwhole]
    rfl
  rw [hone] at hagrees
  exact hagrees.eq_of_fault_eq_none rfl

end Session

end DurableLists

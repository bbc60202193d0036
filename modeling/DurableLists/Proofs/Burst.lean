import DurableLists.Proofs.Checksum
import DurableLists.Proofs.Session.Starts

/-!
# A burst in a frame

A burst changes at most four octets in a row. One that leaves the length of a frame alone either changes the
checksum only, and the body keeps the old one, or changes the body only, and then its checksum
(`Bytes.BurstAt.crc32c_ne`). So the frame is taken from the buffer as it stands and is refused for its
checksum, whatever follows it (`Frame.decode_of_burst`).
-/

set_option autoImplicit false

namespace DurableLists

namespace Bytes

/-- Whether octets are others of the same number, changed nowhere but in the four from a position on. -/
def BurstAt (start : Nat) (bs cs : Bytes) : Prop :=
  cs.length = bs.length ∧ cs ≠ bs ∧ cs.take start = bs.take start ∧ cs.drop (start + 4) = bs.drop (start + 4)

instance (start : Nat) (bs cs : Bytes) : Decidable (BurstAt start bs cs) :=
  inferInstanceAs (Decidable (_ ∧ _))

namespace BurstAt

variable {start : Nat} {bs cs : Bytes}

/-- A burst replaces a few octets by as many others. -/
theorem parts (h : BurstAt start bs cs) : ∃ before old new after, bs = before ++ (old ++ after) ∧
    cs = before ++ (new ++ after) ∧ old.length = new.length ∧ old.length ≤ 4 ∧ new ≠ old := by
  obtain ⟨hlength, hne, htake, hdrop⟩ := h
  have hsplit (ds : Bytes) : ds = ds.take start ++ ((ds.drop start).take 4 ++ ds.drop (start + 4)) := by
    rw [← List.drop_drop, List.take_append_drop, List.take_append_drop]
  refine ⟨bs.take start, (bs.drop start).take 4, (cs.drop start).take 4, bs.drop (start + 4), hsplit bs,
    ?_, ?_, List.length_take_le 4 _, ?_⟩
  · rw [← htake, ← hdrop]
    exact hsplit cs
  · simp only [List.length_take, List.length_drop, hlength]
  · intro hsame
    refine hne ?_
    rw [hsplit cs, hsplit bs, htake, hdrop, hsame]

theorem crc32c_ne (h : BurstAt start bs cs) : Checksum.crc32c cs ≠ Checksum.crc32c bs := by
  obtain ⟨before, old, new, after, rfl, rfl, hlength, hroom, hne⟩ := h.parts
  intro hsums
  exact hne (Checksum.eq_of_crc32c_eq before after hlength.symm (hlength ▸ hroom) hsums)

/-- A burst that starts behind some front leaves the front as it is. -/
theorem behind {front : Bytes} (h : BurstAt start (front ++ bs) cs) (hstart : front.length ≤ start) :
    ∃ ds, cs = front ++ ds ∧ BurstAt (start - front.length) bs ds := by
  obtain ⟨hlength, hne, htake, hdrop⟩ := h
  have hfront : cs.take front.length = front := by
    have hshorter := congrArg (List.take front.length) htake
    rwa [List.take_take, List.take_take, Nat.min_eq_left hstart, List.take_left] at hshorter
  obtain ⟨ds, rfl⟩ : ∃ ds, cs = front ++ ds := by
    refine ⟨cs.drop front.length, ?_⟩
    conv_lhs => rw [← List.take_append_drop front.length cs, hfront]
  have hend : start + 4 - front.length = start - front.length + 4 := by omega
  refine ⟨ds, rfl, ?_, fun hsame => hne (by rw [hsame]), ?_, ?_⟩
  · rw [List.length_append, List.length_append] at hlength
    omega
  · rw [List.take_append, List.take_append] at htake
    exact List.append_cancel_left htake
  · rwa [List.drop_append, List.drop_append, List.drop_eq_nil_of_le (by omega), List.nil_append,
      List.nil_append, hend] at hdrop

end BurstAt

end Bytes

namespace Frame

theorem check_mismatch {checksum : Nat} {bs : Bytes} (h : (Checksum.crc32c bs).toNat ≠ checksum) :
    check checksum bs = .corrupt .checksumMismatch := by
  rw [check, if_pos h]

/-- A burst that changes the checksum of a frame leaves the body under another checksum. -/
theorem eq_withChecksum_of_burst {r : Record} {frame : Bytes} (h : Bytes.BurstAt 0 (encode r) frame) :
    ∃ checksum < 256 ^ 4, frame = withChecksum checksum (body r) ∧
      (Checksum.crc32c (body r)).toNat ≠ checksum := by
  obtain ⟨hlength, hne, -, hdrop⟩ := h
  rw [encode_eq_withChecksum, withChecksum, Nat.zero_add, List.drop_left' (Bytes.length_toLE _ _)] at hdrop
  have hsize : (frame.take 4).length = 4 := by
    rw [List.length_take, hlength, length_encode, headerLength]
    omega
  have hsum : Bytes.toLE 4 (Bytes.ofLE (frame.take 4)) = frame.take 4 := by
    have hread := Bytes.toLE_ofLE (frame.take 4)
    rwa [hsize] at hread
  have hframe : frame = withChecksum (Bytes.ofLE (frame.take 4)) (body r) := by
    rw [withChecksum, hsum, ← hdrop, List.take_append_drop]
  have hlt := Bytes.ofLE_lt (frame.take 4)
  rw [hsize] at hlt
  refine ⟨Bytes.ofLE (frame.take 4), hlt, hframe, fun hsame => hne ?_⟩
  rw [encode_eq_withChecksum, hsame]
  exact hframe

theorem decode_of_checksum_burst {r : Record} (hfits : Fits r) (rest : Bytes) {frame : Bytes}
    (h : Bytes.BurstAt 0 (encode r) frame) : decode (frame ++ rest) = (.corrupt .checksumMismatch, rest) := by
  obtain ⟨checksum, hsize, rfl, hne⟩ := eq_withChecksum_of_burst h
  rw [decode_withChecksum_append rest hsize (fixedLength_le_body r) ((fits_iff r).mp hfits),
    check_mismatch hne]

theorem decode_of_body_burst {r : Record} (hfits : Fits r) (rest : Bytes) {start : Nat}
    (hstart : headerLength ≤ start) {frame : Bytes} (h : Bytes.BurstAt start (encode r) frame) :
    decode (frame ++ rest) = (.corrupt .checksumMismatch, rest) := by
  rw [encode_eq_withChecksum, withChecksum, ← List.append_assoc] at h
  obtain ⟨bs, rfl, hbody⟩ := h.behind (by rwa [List.length_append, Bytes.length_toLE, Bytes.length_toLE])
  have hlength : bs.length = (body r).length := hbody.1
  have hframe : Bytes.toLE 4 (Checksum.crc32c (body r)).toNat ++ Bytes.toLE 4 (body r).length ++ bs =
      withChecksum (Checksum.crc32c (body r)).toNat bs := by
    rw [withChecksum, hlength, List.append_assoc]
  have hne : (Checksum.crc32c bs).toNat ≠ (Checksum.crc32c (body r)).toNat :=
    fun hsums => hbody.crc32c_ne (UInt32.toNat_inj.mp hsums)
  rw [hframe, decode_withChecksum_append rest (Checksum.crc32c (body r)).toNat_lt
    (hlength ▸ fixedLength_le_body r) (hlength ▸ (fits_iff r).mp hfits), check_mismatch hne]

/-- The frame of a record that fits, changed by a burst in its checksum or at any place in its body, is taken
from the buffer as a whole and refused for its checksum, and what follows it is left. -/
theorem decode_of_burst {r : Record} (hfits : Fits r) (rest : Bytes) {start : Nat}
    (hstart : start = 0 ∨ headerLength ≤ start) {frame : Bytes}
    (h : Bytes.BurstAt start (encode r) frame) :
    decode (frame ++ rest) = (.corrupt .checksumMismatch, rest) := by
  rcases hstart with rfl | hstart
  · exact decode_of_checksum_burst hfits rest h
  · exact decode_of_body_burst hfits rest hstart h

end Frame

namespace Session

/-- A checksum with two octets exchanged is found, and so are a key and a value exchanged under another length. -/
theorem decode_sample_bursts :
    Frame.decode ([133, 73, 200, 70] ++ (Frame.encode sampleSealed).drop 4 ++ [7]) =
        (.corrupt .checksumMismatch, [7]) ∧
      Frame.decode ((Frame.encode sampleSealed).take 44 ++ [1, 98, 97, 107] ++ [7]) =
        (.corrupt .checksumMismatch, [7]) := by
  have hsum : Bytes.BurstAt 0 (Frame.encode sampleSealed)
      ([133, 73, 200, 70] ++ (Frame.encode sampleSealed).drop 4) := by
    rw [encode_sampleSealed]
    decide
  have hbody : Bytes.BurstAt 44 (Frame.encode sampleSealed)
      ((Frame.encode sampleSealed).take 44 ++ [1, 98, 97, 107]) := by
    rw [encode_sampleSealed]
    decide
  exact ⟨Frame.decode_of_burst (by decide) [7] (Or.inl rfl) hsum,
    Frame.decode_of_burst (by decide) [7] (Or.inr (by decide)) hbody⟩

end Session

end DurableLists

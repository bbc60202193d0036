import DurableLists.Frame
import DurableLists.Bytes.Lemmas
import DurableLists.Proofs.Text.Utf8

/-!
# Frames are exact

A record fits if the lengths of its bucket, key and value, with the fixed part, are a number that the
length field of a frame can hold. The frame of a record that fits is read back as this record, whatever
follows it (`decode_encode_append`), and whatever is read as a record is the frame of that record, which
fits, and what is left follows the frame (`encode_of_decode`). Both together are `decode_eq_record_iff`. So a
buffer whose reading gives records and then stops is a sequence of frames and a rest that is no frame.
A buffer is partial, short or whole by its length and its length field alone, and each of these is read in
one way (`decode_of_partial`, `decode_of_short`, `decode_of_whole`).
-/

set_option autoImplicit false

namespace DurableLists

namespace Frame

/-- Whether the length of a record's body is one that the length field can hold. -/
def Fits (r : Record) : Prop :=
  fixedLength + (Utf8.encode r.bucket).length + r.key.length + r.value.length < UInt32.size

instance (r : Record) : Decidable (Fits r) := inferInstanceAs (Decidable (_ < _))

/-! ## Numbers at an offset -/

theorem field_zero_toLE (w n : Nat) (rest : Bytes) (h : n < 256 ^ w) :
    field 0 w (Bytes.toLE w n ++ rest) = n := by
  rw [field, List.drop_zero, List.take_left' (Bytes.length_toLE w n), Bytes.ofLE_toLE_of_lt h]

theorem field_skip (k n offset w : Nat) (rest : Bytes) (h : k ≤ offset) :
    field offset w (Bytes.toLE k n ++ rest) = field (offset - k) w rest := by
  rw [field, field, List.drop_append, List.drop_eq_nil_of_le (by rwa [Bytes.length_toLE]),
    List.nil_append, Bytes.length_toLE]

theorem field_append_left (pre rest : Bytes) (offset w : Nat) (h : offset + w ≤ pre.length) :
    field offset w (pre ++ rest) = field offset w pre := by
  rw [field, field, List.drop_append_of_le_length (by omega),
    List.take_append_of_le_length (by rw [List.length_drop]; omega)]

theorem field_take {offset w n : Nat} {bs : Bytes} (h : offset + w ≤ n) (hn : n ≤ bs.length) :
    field offset w (bs.take n) = field offset w bs := by
  have hsplit := field_append_left (bs.take n) (bs.drop n) offset w (by rw [List.length_take]; omega)
  rw [← hsplit, List.take_append_drop]

theorem drop_eq_toLE_append (offset w : Nat) (bs : Bytes) (h : offset + w ≤ bs.length) :
    bs.drop offset = Bytes.toLE w (field offset w bs) ++ bs.drop (offset + w) := by
  have hlen : ((bs.drop offset).take w).length = w := by
    rw [List.length_take, List.length_drop]
    omega
  have e : Bytes.toLE w (field offset w bs) = (bs.drop offset).take w := by
    have h := Bytes.toLE_ofLE ((bs.drop offset).take w)
    rw [hlen] at h
    exact h
  rw [e, ← List.drop_drop, List.take_append_drop]

theorem field_lt (offset w : Nat) (bs : Bytes) : field offset w bs < 256 ^ w := by
  refine Nat.lt_of_lt_of_le (Bytes.ofLE_lt _) (Nat.pow_le_pow_right (by omega) ?_)
  rw [List.length_take]
  exact Nat.min_le_left ..

/-! ## Bodies -/

/-- The octets of a body before the bucket. -/
def fixedPart (r : Record) : Bytes :=
  Bytes.toLE 8 r.txId.toNat ++ (Bytes.toLE 8 r.timestamp.toNat ++
    (Bytes.toLE 4 r.persistence.toNat ++ (Bytes.toLE 2 r.kind.flag.toNat ++
      (Bytes.toLE 2 listTag.toNat ++ (Bytes.toLE 1 (statusTag r.status).toNat ++
        (Bytes.toLE 4 (Utf8.encode r.bucket).length ++
          (Bytes.toLE 4 r.key.length ++ Bytes.toLE 4 r.value.length)))))))

theorem body_eq (r : Record) : body r = fixedPart r ++ (Utf8.encode r.bucket ++ (r.key ++ r.value)) := by
  have hstatus : Bytes.toLE 1 (statusTag r.status).toNat = [statusTag r.status] :=
    Bytes.toLE_ofLE [statusTag r.status]
  simp only [body, fixedPart, hstatus, List.append_assoc]

@[simp] theorem length_fixedPart (r : Record) : (fixedPart r).length = fixedLength := by
  simp [fixedPart, fixedLength]

theorem length_body (r : Record) : (body r).length =
    fixedLength + (Utf8.encode r.bucket).length + r.key.length + r.value.length := by
  rw [body_eq]
  simp only [List.length_append, length_fixedPart]
  omega

theorem fits_iff (r : Record) : Fits r ↔ (body r).length < UInt32.size := by
  rw [Fits, length_body]

@[simp] theorem status?_statusTag (status : Status) : status? (statusTag status) = some status := by
  cases status <;> rfl

theorem statusTag_of_status? {tag : UInt8} {status : Status} (h : status? tag = some status) :
    statusTag status = tag := by
  simp only [status?] at h
  split at h
  · rename_i htag
    cases h
    exact htag.symm
  · split at h
    · rename_i htag
      cases h
      exact htag.symm
    · cases h

theorem fields_fixedPart (r : Record) (hfits : Fits r) :
    field 0 8 (fixedPart r) = r.txId.toNat ∧ field 8 8 (fixedPart r) = r.timestamp.toNat ∧
      field 16 4 (fixedPart r) = r.persistence.toNat ∧ field 20 2 (fixedPart r) = r.kind.flag.toNat ∧
      field 22 2 (fixedPart r) = listTag.toNat ∧ field 24 1 (fixedPart r) = (statusTag r.status).toNat ∧
      field 25 4 (fixedPart r) = (Utf8.encode r.bucket).length ∧
      field 29 4 (fixedPart r) = r.key.length ∧ field 33 4 (fixedPart r) = r.value.length := by
  have hsize : UInt32.size = 256 ^ 4 := rfl
  have hbucket : (Utf8.encode r.bucket).length < 256 ^ 4 := by unfold Fits at hfits; omega
  have hkey : r.key.length < 256 ^ 4 := by unfold Fits at hfits; omega
  have hvalue : r.value.length < 256 ^ 4 := by unfold Fits at hfits; omega
  have hlast := field_zero_toLE 4 r.value.length [] hvalue
  rw [List.append_nil] at hlast
  simp (disch := decide) only [fixedPart, field_skip, Nat.reduceSub]
  exact ⟨field_zero_toLE 8 _ _ r.txId.toNat_lt, field_zero_toLE 8 _ _ r.timestamp.toNat_lt,
    field_zero_toLE 4 _ _ r.persistence.toNat_lt, field_zero_toLE 2 _ _ r.kind.flag.toNat_lt,
    field_zero_toLE 2 _ _ listTag.toNat_lt, field_zero_toLE 1 _ _ (statusTag r.status).toNat_lt,
    field_zero_toLE 4 _ _ hbucket, field_zero_toLE 4 _ _ hkey, hlast⟩

theorem decodeFields_fixedPart (r : Record) (hfits : Fits r) :
    decodeFields (fixedPart r) (Utf8.encode r.bucket ++ (r.key ++ r.value)) r.kind r.status = .ok r := by
  obtain ⟨hid, htime, hpersistence, -, -, -, hbucket, hkey, hvalue⟩ := fields_fixedPart r hfits
  have hlen : (Utf8.encode r.bucket ++ (r.key ++ r.value)).length =
      (Utf8.encode r.bucket).length + r.key.length + r.value.length := by
    simp only [List.length_append]
    omega
  simp only [decodeFields, hid, htime, hpersistence, hbucket, hkey, hvalue, hlen, ne_eq,
    not_true_eq_false, if_false, List.take_left, List.drop_left, Utf8.decode_encode,
    UInt64.ofNat_toNat, UInt32.ofNat_toNat]

theorem decodeBody_body (r : Record) (hfits : Fits r) : decodeBody (body r) = .ok r := by
  obtain ⟨-, -, -, hkind, htag, hstatus, -, -, -⟩ := fields_fixedPart r hfits
  have hleft : ∀ offset w, offset + w ≤ fixedLength →
      field offset w (body r) = field offset w (fixedPart r) := by
    intro offset w h
    rw [body_eq, field_append_left _ _ _ _ (by rwa [length_fixedPart])]
  have htake : (body r).take fixedLength = fixedPart r := by
    rw [body_eq, List.take_left' (length_fixedPart r)]
  have hdrop : (body r).drop fixedLength = Utf8.encode r.bucket ++ (r.key ++ r.value) := by
    rw [body_eq, List.drop_left' (length_fixedPart r)]
  simp only [decodeBody, hleft 20 2 (by decide), hleft 22 2 (by decide), hleft 24 1 (by decide),
    hkind, htag, hstatus, htake, hdrop, UInt16.ofNat_toNat, UInt8.ofNat_toNat, Kind.ofFlag?_flag,
    status?_statusTag, ne_eq, not_true_eq_false, if_false]
  exact decodeFields_fixedPart r hfits

theorem fields_of_decodeFields {fixed rest : Bytes} {kind : Kind} {status : Status} {r : Record}
    (h : decodeFields fixed rest kind status = .ok r) :
    field 0 8 fixed = r.txId.toNat ∧ field 8 8 fixed = r.timestamp.toNat ∧
      field 16 4 fixed = r.persistence.toNat ∧ r.kind = kind ∧ r.status = status ∧
      field 25 4 fixed = (Utf8.encode r.bucket).length ∧ field 29 4 fixed = r.key.length ∧
      field 33 4 fixed = r.value.length ∧ rest = Utf8.encode r.bucket ++ (r.key ++ r.value) := by
  simp only [decodeFields] at h
  split at h
  · cases h
  · rename_i hlen
    have hlen : rest.length = field 25 4 fixed + field 29 4 fixed + field 33 4 fixed := by
      omega
    split at h
    · cases h
    · rename_i bucket hbucket
      simp only [Except.ok.injEq] at h
      subst h
      have htext := Utf8.encode_of_decode hbucket
      refine ⟨?_, ?_, ?_, rfl, rfl, ?_, ?_, ?_, ?_⟩
      · exact (UInt64.toNat_ofNat_of_lt' (field_lt 0 8 fixed)).symm
      · exact (UInt64.toNat_ofNat_of_lt' (field_lt 8 8 fixed)).symm
      · exact (UInt32.toNat_ofNat_of_lt' (field_lt 16 4 fixed)).symm
      · rw [htext, List.length_take]
        omega
      · rw [List.length_take, List.length_drop]
        omega
      · simp only [List.length_drop]
        omega
      · rw [htext, List.take_append_drop, List.take_append_drop]

theorem fixed_eq_fields (fixed : Bytes) (h : fixed.length = fixedLength) :
    fixed = Bytes.toLE 8 (field 0 8 fixed) ++ (Bytes.toLE 8 (field 8 8 fixed) ++
      (Bytes.toLE 4 (field 16 4 fixed) ++ (Bytes.toLE 2 (field 20 2 fixed) ++
        (Bytes.toLE 2 (field 22 2 fixed) ++ (Bytes.toLE 1 (field 24 1 fixed) ++
          (Bytes.toLE 4 (field 25 4 fixed) ++
            (Bytes.toLE 4 (field 29 4 fixed) ++ Bytes.toLE 4 (field 33 4 fixed)))))))) := by
  have hlen : fixed.length = 37 := h
  have h0 := drop_eq_toLE_append 0 8 fixed (by omega)
  have h33 := drop_eq_toLE_append 33 4 fixed (by omega)
  rw [List.drop_eq_nil_of_le (by omega : fixed.length ≤ 33 + 4), List.append_nil] at h33
  rw [List.drop_zero, drop_eq_toLE_append 8 8 fixed (by omega),
    drop_eq_toLE_append 16 4 fixed (by omega), drop_eq_toLE_append 20 2 fixed (by omega),
    drop_eq_toLE_append 22 2 fixed (by omega), drop_eq_toLE_append 24 1 fixed (by omega),
    drop_eq_toLE_append 25 4 fixed (by omega), drop_eq_toLE_append 29 4 fixed (by omega), h33] at h0
  exact h0

theorem body_of_decodeBody {bs : Bytes} {r : Record} (hlen : fixedLength ≤ bs.length)
    (h : decodeBody bs = .ok r) : body r = bs := by
  have hfixed : (bs.take fixedLength).length = fixedLength := by
    rw [List.length_take]
    omega
  have hleft : ∀ offset w, offset + w ≤ fixedLength →
      field offset w bs = field offset w (bs.take fixedLength) :=
    fun _ _ ho => (field_take ho hlen).symm
  simp only [decodeBody, hleft 20 2 (by decide), hleft 22 2 (by decide), hleft 24 1 (by decide)] at h
  split at h
  · cases h
  · rename_i kind hkind
    split at h
    · cases h
    · rename_i htag
      split at h
      · cases h
      · rename_i status hstatus
        obtain ⟨hid, htime, hpersistence, rfl, rfl, hbucket, hkey, hvalue, hrest⟩ :=
          fields_of_decodeFields h
        have hflag : field 20 2 (bs.take fixedLength) = r.kind.flag.toNat := by
          rw [Kind.flag_of_ofFlag? hkind]
          exact (UInt16.toNat_ofNat_of_lt' (field_lt 20 2 _)).symm
        have hstructure : field 22 2 (bs.take fixedLength) = listTag.toNat := by
          rw [← not_ne_iff.mp htag]
          exact (UInt16.toNat_ofNat_of_lt' (field_lt 22 2 _)).symm
        have hmark : field 24 1 (bs.take fixedLength) = (statusTag r.status).toNat := by
          rw [statusTag_of_status? hstatus]
          exact (UInt8.toNat_ofNat_of_lt' (field_lt 24 1 _)).symm
        have hparts := fixed_eq_fields (bs.take fixedLength) hfixed
        rw [hid, htime, hpersistence, hflag, hstructure, hmark, hbucket, hkey, hvalue] at hparts
        rw [body_eq, ← hrest, fixedPart, ← hparts, List.take_append_drop]

/-! ## The front of a buffer -/

/-- A buffer that may become a frame but is no whole one yet. -/
def Partial (buffer : Bytes) : Prop :=
  buffer.length < headerLength ∨ fixedLength ≤ field 4 4 buffer ∧ buffer.length < announced buffer

/-- A buffer whose length field is too small for a body. -/
def Short (buffer : Bytes) : Prop := headerLength ≤ buffer.length ∧ field 4 4 buffer < fixedLength

/-- A buffer that has all octets of the frame at its front. -/
def Whole (buffer : Bytes) : Prop := fixedLength ≤ field 4 4 buffer ∧ announced buffer ≤ buffer.length

theorem partial_or_short_or_whole (buffer : Bytes) : Partial buffer ∨ Short buffer ∨ Whole buffer := by
  simp only [Partial, Short, Whole]
  omega

section

variable {buffer : Bytes}

theorem Partial.not_whole (h : Partial buffer) : ¬ Whole buffer := by
  simp only [Partial, Whole, announced] at h ⊢
  omega

theorem Short.not_partial (h : Short buffer) : ¬ Partial buffer := by
  simp only [Short, Partial] at h ⊢
  omega

theorem Short.not_whole (h : Short buffer) : ¬ Whole buffer := by
  simp only [Short, Whole] at h ⊢
  omega

theorem decode_of_partial (h : Partial buffer) : decode buffer = (.incomplete, buffer) := by
  simp only [Partial, announced] at h
  simp only [decode]
  split
  · rfl
  · rename_i hheader
    rw [List.length_take] at hheader
    rw [if_neg (by omega), if_pos (by rw [List.length_take, List.length_drop]; omega)]

theorem decode_of_short (h : Short buffer) :
    decode buffer = (.corrupt (.shortBody (field 4 4 buffer)), buffer) := by
  obtain ⟨hheader, hshort⟩ := h
  simp only [decode]
  rw [if_neg (by rw [List.length_take]; omega), if_pos hshort]

/-- A whole frame is taken from the buffer, and then its body is checked. -/
theorem decode_of_whole (h : Whole buffer) : decode buffer =
    (check (field 0 4 buffer) ((buffer.drop headerLength).take (field 4 4 buffer)),
      buffer.drop (announced buffer)) := by
  obtain ⟨hfixed, hwhole⟩ := h
  rw [announced] at hwhole
  simp only [decode]
  rw [if_neg (by rw [List.length_take]; omega), if_neg (by omega),
    if_neg (by rw [List.length_take, List.length_drop]; omega)]

theorem check_cases (checksum : Nat) (bs : Bytes) :
    (∃ r, check checksum bs = .record r) ∨ ∃ cause, check checksum bs = .corrupt cause := by
  simp only [check]
  split
  · exact .inr ⟨_, rfl⟩
  · split
    · exact .inl ⟨_, rfl⟩
    · exact .inr ⟨_, rfl⟩

theorem partial_of_incomplete (h : (decode buffer).1 = .incomplete) : Partial buffer := by
  obtain hpartial | hshort | hwhole := partial_or_short_or_whole buffer
  · exact hpartial
  · rw [decode_of_short hshort] at h
    cases h
  · rw [decode_of_whole hwhole] at h
    obtain ⟨r, hr⟩ | ⟨cause, hcause⟩ := check_cases (field 0 4 buffer)
      ((buffer.drop headerLength).take (field 4 4 buffer))
    · exact absurd (hr.symm.trans h) nofun
    · exact absurd (hcause.symm.trans h) nofun

theorem whole_of_record {r : Record} {rest : Bytes} (h : decode buffer = (.record r, rest)) : Whole buffer := by
  obtain hpartial | hshort | hwhole := partial_or_short_or_whole buffer
  · rw [decode_of_partial hpartial] at h
    cases h
  · rw [decode_of_short hshort] at h
    cases h
  · exact hwhole

end

/-! ## Frames -/

@[simp] theorem length_encode (r : Record) : (encode r).length = headerLength + (body r).length := by
  simp only [encode, List.length_append, Bytes.length_toLE]
  rfl

/-- A frame of the given body under a checksum that need not be the body's. -/
def withChecksum (checksum : Nat) (bs : Bytes) : Bytes :=
  Bytes.toLE 4 checksum ++ (Bytes.toLE 4 bs.length ++ bs)

theorem encode_eq_withChecksum (r : Record) :
    encode r = withChecksum (Checksum.crc32c (body r)).toNat (body r) := by
  rw [encode, withChecksum, List.append_assoc]

theorem header_withChecksum_append {checksum : Nat} {bs : Bytes} (rest : Bytes) (hsum : checksum < 256 ^ 4)
    (hlen : bs.length < 256 ^ 4) :
    field 0 4 (withChecksum checksum bs ++ rest) = checksum ∧
      field 4 4 (withChecksum checksum bs ++ rest) = bs.length := by
  simp (disch := decide) only [withChecksum, List.append_assoc, field_skip, Nat.reduceSub]
  exact ⟨field_zero_toLE 4 _ _ hsum, field_zero_toLE 4 _ _ hlen⟩

/-- A frame whose body has the fixed part is whole, whatever follows it. -/
theorem decode_withChecksum_append {checksum : Nat} {bs : Bytes} (rest : Bytes) (hsum : checksum < 256 ^ 4)
    (hfixed : fixedLength ≤ bs.length) (hlen : bs.length < 256 ^ 4) :
    decode (withChecksum checksum bs ++ rest) = (check checksum bs, rest) := by
  obtain ⟨hcrc, hbodyLength⟩ := header_withChecksum_append rest hsum hlen
  have hsplit : withChecksum checksum bs ++ rest =
      (Bytes.toLE 4 checksum ++ Bytes.toLE 4 bs.length) ++ (bs ++ rest) := by
    simp only [withChecksum, List.append_assoc]
  have hwhole : Whole (withChecksum checksum bs ++ rest) := by
    rw [Whole, announced, hbodyLength, hsplit]
    simp only [List.length_append, Bytes.length_toLE]
    exact ⟨hfixed, Nat.add_le_add_left (Nat.le_add_right _ _) _⟩
  have hbody : ((withChecksum checksum bs ++ rest).drop headerLength).take bs.length = bs := by
    rw [hsplit, List.drop_left' (by simp [headerLength]), List.take_left]
  have hdrop : (withChecksum checksum bs ++ rest).drop (announced (withChecksum checksum bs ++ rest)) =
      rest := by
    rw [announced, hbodyLength, ← List.drop_drop, hsplit, List.drop_left' (by simp [headerLength]),
      List.drop_left]
  rw [decode_of_whole hwhole, hcrc, hbodyLength, hbody, hdrop]

theorem header_encode_append (r : Record) (rest : Bytes) (hfits : Fits r) :
    field 0 4 (encode r ++ rest) = (Checksum.crc32c (body r)).toNat ∧
      field 4 4 (encode r ++ rest) = (body r).length := by
  rw [encode_eq_withChecksum]
  exact header_withChecksum_append rest (Checksum.crc32c (body r)).toNat_lt ((fits_iff r).mp hfits)

theorem announced_encode_append (r : Record) (rest : Bytes) (hfits : Fits r) :
    announced (encode r ++ rest) = (encode r).length := by
  rw [announced, (header_encode_append r rest hfits).2, length_encode]

theorem fixedLength_le_body (r : Record) : fixedLength ≤ (body r).length := by
  rw [length_body]
  omega

/-- The frame of a record that fits is read back, and what follows it is left. -/
theorem decode_encode_append (r : Record) (rest : Bytes) (hfits : Fits r) :
    decode (encode r ++ rest) = (.record r, rest) := by
  rw [encode_eq_withChecksum, decode_withChecksum_append rest (Checksum.crc32c (body r)).toNat_lt
    (fixedLength_le_body r) ((fits_iff r).mp hfits)]
  simp only [check, decodeBody_body r hfits, ne_eq, not_true_eq_false, if_false]

theorem record_of_check {checksum : Nat} {bs : Bytes} {r : Record} (h : check checksum bs = .record r) :
    checksum = (Checksum.crc32c bs).toNat ∧ decodeBody bs = .ok r := by
  simp only [check] at h
  split at h
  · cases h
  · rename_i hcrc
    split at h
    · rename_i hread
      cases h
      exact ⟨(not_ne_iff.mp hcrc).symm, hread⟩
    · cases h

/-- Whatever is read as a record is its frame, and the record fits. -/
theorem encode_of_decode {buffer rest : Bytes} {r : Record}
    (h : decode buffer = (.record r, rest)) : Fits r ∧ buffer = encode r ++ rest := by
  have hwhole := whole_of_record h
  rw [decode_of_whole hwhole] at h
  obtain ⟨hfound, hrest⟩ := Prod.mk.inj h
  obtain ⟨hcrc, hread⟩ := record_of_check hfound
  obtain ⟨hfixed, hlong⟩ := hwhole
  have hsize : headerLength = 8 := rfl
  rw [announced] at hlong
  have hlen : ((buffer.drop headerLength).take (field 4 4 buffer)).length = field 4 4 buffer := by
    rw [List.length_take, List.length_drop]
    omega
  have hr := body_of_decodeBody (by omega) hread
  have hbodyLength : (body r).length = field 4 4 buffer := by rw [hr, hlen]
  refine ⟨?_, ?_⟩
  · rw [fits_iff, hbodyLength]
    exact field_lt 4 4 buffer
  · have h0 := drop_eq_toLE_append 0 4 buffer (by omega)
    have h4 := drop_eq_toLE_append 4 4 buffer (by omega)
    have h8 : buffer.drop headerLength = body r ++ rest := by
      rw [hr, ← hrest, announced, ← List.drop_drop, List.take_append_drop]
    rw [List.drop_zero, h4, hcrc, ← hr, ← hbodyLength] at h0
    rw [h0, encode, List.append_assoc, List.append_assoc, ← h8]
    rfl

/-- Frames and the records that fit are in bijection: a record is read off the front of a buffer, and a rest is
left, exactly where the record fits and the buffer is its frame and then the rest. -/
theorem decode_eq_record_iff (buffer : Bytes) (r : Record) (rest : Bytes) :
    decode buffer = (.record r, rest) ↔ Fits r ∧ buffer = encode r ++ rest := by
  constructor
  · exact encode_of_decode
  · rintro ⟨hfits, rfl⟩
    exact decode_encode_append r rest hfits

/-! ## Buffers that hold no whole frame -/

theorem announced_append {buffer : Bytes} (rest : Bytes) (h : headerLength ≤ buffer.length) :
    announced (buffer ++ rest) = announced buffer := by
  have hsize : headerLength = 8 := rfl
  rw [announced, announced, field_append_left _ _ _ _ (by omega)]

/-- A frame that is not incomplete is found whatever follows it in the buffer. -/
theorem decode_append (buffer rest : Bytes) (h : (decode buffer).1 ≠ .incomplete) :
    decode (buffer ++ rest) = ((decode buffer).1, (decode buffer).2 ++ rest) := by
  have hsize : headerLength = 8 := rfl
  have hlength : (buffer ++ rest).length = buffer.length + rest.length := List.length_append
  have hfield (offset : Nat) (ho : offset + 4 ≤ buffer.length) :
      field offset 4 (buffer ++ rest) = field offset 4 buffer := field_append_left _ _ _ _ ho
  obtain hpartial | hshort | hwhole := partial_or_short_or_whole buffer
  · rw [decode_of_partial hpartial] at h
    exact absurd rfl h
  · obtain ⟨hheader, hsmall⟩ := id hshort
    have hshort' : Short (buffer ++ rest) := by
      rw [Short, hfield 4 (by omega), hlength]
      omega
    rw [decode_of_short hshort, decode_of_short hshort', hfield 4 (by omega)]
  · obtain ⟨hfixed, hlong⟩ := id hwhole
    have hheader : headerLength ≤ buffer.length := Nat.le_trans (Nat.le_add_right _ _) hlong
    have hannounced := announced_append rest hheader
    have hwhole' : Whole (buffer ++ rest) := by
      rw [Whole, hfield 4 (by omega), hannounced, hlength]
      omega
    have hbody : ((buffer ++ rest).drop headerLength).take (field 4 4 buffer) =
        (buffer.drop headerLength).take (field 4 4 buffer) := by
      rw [announced] at hlong
      rw [List.drop_append_of_le_length hheader,
        List.take_append_of_le_length (by rw [List.length_drop]; omega)]
    rw [decode_of_whole hwhole, decode_of_whole hwhole', hfield 0 (by omega), hfield 4 (by omega), hbody,
      hannounced, List.drop_append_of_le_length hlong]

theorem decode_take_encode (r : Record) (hfits : Fits r) {n : Nat} (hn : n < (encode r).length) :
    (decode ((encode r).take n)).1 = .incomplete := by
  by_contra hfound
  have h := decode_append _ ((encode r).drop n) hfound
  rw [List.take_append_drop, ← List.append_nil (encode r), decode_encode_append r [] hfits] at h
  have hrest := congrArg (fun p => p.2.length) h
  simp only [List.length_nil, List.length_append, List.append_nil, List.length_drop] at hrest
  omega

end Frame

end DurableLists

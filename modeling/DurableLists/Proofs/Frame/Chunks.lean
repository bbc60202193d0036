import DurableLists.Proofs.Frame.Exact

/-!
# Frames in chunks

Every byte string is frames of records that fit and a rest that is incomplete or corrupt
(`exists_encodeAll_append`). A buffer is read frame by frame until nothing whole is left at its front, or up
to a fault (`decodeAll`). When octets come in chunks, each chunk goes to the end of the buffer and the buffer
is read again (`decodeChunks`). A frame that is found is found whatever follows it, so this comes to the same
as reading all octets at once (`agrees_decodeAll`).
-/

set_option autoImplicit false

namespace DurableLists

namespace Frame

/-! ## Frames in a row -/

@[simp] theorem encodeAll_nil : encodeAll [] = [] := rfl

@[simp] theorem encodeAll_cons (r : Record) (rs : List Record) :
    encodeAll (r :: rs) = encode r ++ encodeAll rs := List.flatMap_cons

@[simp] theorem encodeAll_append (rs ts : List Record) :
    encodeAll (rs ++ ts) = encodeAll rs ++ encodeAll ts := List.flatMap_append

theorem announced_encode {r : Record} (h : Fits r) : announced (encode r) = (encode r).length := by
  have e := announced_encode_append r [] h
  rwa [List.append_nil] at e

theorem encode_ne_nil (r : Record) : encode r ≠ [] := by
  intro h
  have hlen := length_encode r
  rw [h, List.length_nil, headerLength] at hlen
  omega

theorem encodeAll_ne_nil (r : Record) (rs : List Record) : encodeAll (r :: rs) ≠ [] := by
  rw [encodeAll_cons]
  exact List.append_ne_nil_of_left_ne_nil (encode_ne_nil r) _

/-- Frames that are cut somewhere are some whole frames and a rest that is no whole frame. -/
theorem take_encodeAll (rs : List Record) (hfits : ∀ r ∈ rs, Fits r) (n : Nat) :
    ∃ j tail, (encodeAll rs).take n = encodeAll (rs.take j) ++ tail ∧ (decode tail).1 = .incomplete ∧
      (encodeAll (rs.take j)).length ≤ n := by
  induction rs generalizing n with
  | nil => exact ⟨0, [], by simp, rfl, Nat.zero_le _⟩
  | cons r rs ih =>
    by_cases hn : (encode r).length ≤ n
    · obtain ⟨j, tail, htake, htail, hlength⟩ :=
        ih (fun t ht => hfits t (by simp [ht])) (n - (encode r).length)
      refine ⟨j + 1, tail, ?_, htail, ?_⟩
      · rw [encodeAll_cons, List.take_append, List.take_of_length_le hn, htake, List.take_succ_cons,
          encodeAll_cons, List.append_assoc]
      · rw [List.take_succ_cons, encodeAll_cons, List.length_append]
        omega
    · refine ⟨0, (encode r).take n, ?_, decode_take_encode r (hfits r (by simp)) (by omega), Nat.zero_le _⟩
      rw [encodeAll_cons, List.take_append_of_le_length (by omega)]
      rfl

/-- Octets are the frames of records that fit, and a rest at whose front there is none. -/
theorem exists_encodeAll_append (bs : Bytes) :
    ∃ rs tail, bs = encodeAll rs ++ tail ∧ (∀ r ∈ rs, Fits r) ∧
      ((decode tail).1 = .incomplete ∨ ∃ cause, (decode tail).1 = .corrupt cause) := by
  induction hn : bs.length using Nat.strongRecOn generalizing bs with
  | ind n ih =>
    cases hfound : decode bs with
    | mk found rest =>
      cases found with
      | record r =>
        obtain ⟨hfits, hbs⟩ := encode_of_decode hfound
        have hshort : rest.length < n := hn ▸ length_decode_of_record hfound
        obtain ⟨rs, tail, hrest, hrs, htail⟩ := ih rest.length hshort rest rfl
        refine ⟨r :: rs, tail, ?_, ?_, htail⟩
        · rw [hbs, hrest, encodeAll_cons, List.append_assoc]
        · intro t ht
          rcases List.mem_cons.mp ht with rfl | ht
          · exact hfits
          · exact hrs t ht
      | incomplete =>
        exact ⟨[], bs, rfl, by simp, Or.inl (by rw [hfound])⟩
      | corrupt cause =>
        exact ⟨[], bs, rfl, by simp, Or.inr ⟨cause, by rw [hfound]⟩⟩

/-! ## Reading -/

/-- What frames have been read as: the records, the fault that ended the reading, if one did, and the octets
that are left. -/
structure Decoded where
  records : List Record
  fault : Option Corruption
  rest : Bytes
  deriving DecidableEq, Repr

def Decoded.after (front : List Record) (d : Decoded) : Decoded := { d with records := front ++ d.records }

/-- Reads the frames in a buffer, up to the first one that is not whole or not sound. -/
def decodeAll (buffer : Bytes) : Decoded :=
  match _h : decode buffer with
  | (.incomplete, _) => ⟨[], none, buffer⟩
  | (.corrupt cause, rest) => ⟨[], some cause, rest⟩
  | (.record r, rest) => (decodeAll rest).after [r]
termination_by buffer.length
decreasing_by exact length_decode_of_record (by assumption)

/-- Reads the frames in chunks that come to a buffer one by one, up to the first fault. -/
def decodeChunks (buffer : Bytes) : List Bytes → Decoded
  | [] => ⟨[], none, buffer⟩
  | chunk :: chunks =>
    let first := decodeAll (buffer ++ chunk)
    match first.fault with
    | some _ => first
    | none => (decodeChunks first.rest chunks).after first.records

/-! ## One buffer -/

theorem decodeAll_incomplete {buffer : Bytes} (h : (decode buffer).1 = .incomplete) :
    decodeAll buffer = ⟨[], none, buffer⟩ := by
  rw [decodeAll]
  split
  · rfl
  · rename_i hfound
    rw [hfound] at h
    cases h
  · rename_i hfound
    rw [hfound] at h
    cases h

theorem decodeAll_corrupt {buffer rest : Bytes} {cause : Corruption}
    (h : decode buffer = (.corrupt cause, rest)) : decodeAll buffer = ⟨[], some cause, rest⟩ := by
  rw [decodeAll]
  split
  · rename_i hfound
    rw [hfound] at h
    cases h
  · rename_i hfound
    rw [hfound] at h
    cases h
    rfl
  · rename_i hfound
    rw [hfound] at h
    cases h

theorem decodeAll_record {buffer rest : Bytes} {r : Record} (h : decode buffer = (.record r, rest)) :
    decodeAll buffer = (decodeAll rest).after [r] := by
  rw [decodeAll]
  split
  · rename_i hfound
    rw [hfound] at h
    cases h
  · rename_i hfound
    rw [hfound] at h
    cases h
  · rename_i hfound
    rw [hfound] at h
    cases h
    rfl

/-- Reading stops without a fault where nothing whole is left. -/
theorem incomplete_rest {buffer : Bytes} (h : (decodeAll buffer).fault = none) :
    (decode (decodeAll buffer).rest).1 = .incomplete := by
  fun_induction decodeAll buffer with
  | case1 buffer rest hfound => rw [hfound]
  | case2 buffer cause rest hfound => cases h
  | case3 buffer r rest hfound ih => exact ih h

theorem decodeAll_encodeAll_append (rs : List Record) (tail : Bytes) (hfits : ∀ r ∈ rs, Fits r) :
    decodeAll (encodeAll rs ++ tail) = (decodeAll tail).after rs := by
  induction rs with
  | nil => rfl
  | cons r rs ih =>
    rw [encodeAll_cons, List.append_assoc,
      decodeAll_record (decode_encode_append r _ (hfits r List.mem_cons_self)),
      ih fun t ht => hfits t (List.mem_cons_of_mem r ht)]
    rfl

/-! ## More octets -/

theorem decodeAll_append {buffer : Bytes} (more : Bytes) (h : (decodeAll buffer).fault = none) :
    decodeAll (buffer ++ more) =
      (decodeAll ((decodeAll buffer).rest ++ more)).after (decodeAll buffer).records := by
  fun_induction decodeAll buffer with
  | case1 buffer rest hfound => rfl
  | case2 buffer cause rest hfound => cases h
  | case3 buffer r rest hfound ih =>
    have happend := decode_append buffer more (by rw [hfound]; exact nofun)
    rw [hfound] at happend
    rw [decodeAll_record happend, ih h]
    rfl

theorem decodeAll_append_of_fault {buffer : Bytes} (more : Bytes) {cause : Corruption}
    (h : (decodeAll buffer).fault = some cause) :
    decodeAll (buffer ++ more) = { decodeAll buffer with rest := (decodeAll buffer).rest ++ more } := by
  fun_induction decodeAll buffer with
  | case1 buffer rest hfound => cases h
  | case2 buffer cause rest hfound =>
    have happend := decode_append buffer more (by rw [hfound]; exact nofun)
    rw [hfound] at happend
    exact decodeAll_corrupt happend
  | case3 buffer r rest hfound ih =>
    have happend := decode_append buffer more (by rw [hfound]; exact nofun)
    rw [hfound] at happend
    rw [decodeAll_record happend, ih h]
    rfl

/-! ## Chunks -/

/-- Whether two readings found the same records and the same fault, or none and left the same octets. -/
def Decoded.Agrees (d e : Decoded) : Prop :=
  d.records = e.records ∧ d.fault = e.fault ∧ (d.fault = none → d.rest = e.rest)

namespace Decoded.Agrees

variable {d e f : Decoded}

theorem refl (d : Decoded) : d.Agrees d := ⟨rfl, rfl, fun _ => rfl⟩

theorem symm (h : d.Agrees e) : e.Agrees d :=
  ⟨h.1.symm, h.2.1.symm, fun hnone => (h.2.2 (h.2.1.trans hnone)).symm⟩

theorem trans (h : d.Agrees e) (h' : e.Agrees f) : d.Agrees f :=
  ⟨h.1.trans h'.1, h.2.1.trans h'.2.1,
    fun hnone => (h.2.2 hnone).trans (h'.2.2 (h.2.1.symm.trans hnone))⟩

theorem after (h : d.Agrees e) (front : List Record) : (d.after front).Agrees (e.after front) :=
  ⟨congrArg (front ++ ·) h.1, h.2⟩

theorem eq_of_fault_eq_none (h : d.Agrees e) (hnone : e.fault = none) : d = e := by
  obtain ⟨hrecords, hfault, hrest⟩ := h
  cases d
  cases e
  cases hrecords
  cases hfault
  cases hrest hnone
  rfl

end Decoded.Agrees

theorem decodeChunks_cons_of_fault {buffer chunk : Bytes} (chunks : List Bytes) {cause : Corruption}
    (h : (decodeAll (buffer ++ chunk)).fault = some cause) :
    decodeChunks buffer (chunk :: chunks) = decodeAll (buffer ++ chunk) := by
  rw [decodeChunks, h]

theorem decodeChunks_cons {buffer chunk : Bytes} (chunks : List Bytes)
    (h : (decodeAll (buffer ++ chunk)).fault = none) : decodeChunks buffer (chunk :: chunks) =
      (decodeChunks (decodeAll (buffer ++ chunk)).rest chunks).after (decodeAll (buffer ++ chunk)).records := by
  rw [decodeChunks, h]

theorem agrees_decodeChunks {buffer : Bytes} (h : (decode buffer).1 = .incomplete) (chunks : List Bytes) :
    (decodeChunks buffer chunks).Agrees (decodeAll (buffer ++ chunks.flatten)) := by
  induction chunks generalizing buffer with
  | nil =>
    rw [List.flatten_nil, List.append_nil, decodeAll_incomplete h]
    exact .refl _
  | cons chunk chunks ih =>
    rw [List.flatten_cons, ← List.append_assoc]
    cases hfault : (decodeAll (buffer ++ chunk)).fault with
    | some cause =>
      rw [decodeChunks_cons_of_fault chunks hfault, decodeAll_append_of_fault chunks.flatten hfault]
      exact ⟨rfl, rfl, fun hnone => absurd (hfault.symm.trans hnone) nofun⟩
    | none =>
      rw [decodeChunks_cons chunks hfault, decodeAll_append chunks.flatten hfault]
      exact (ih (incomplete_rest hfault)).after _

/-- Reading chunk by chunk agrees with reading all octets at once. -/
theorem agrees_decodeAll (chunks : List Bytes) :
    (decodeChunks [] chunks).Agrees (decodeAll chunks.flatten) := agrees_decodeChunks rfl chunks

end Frame

end DurableLists

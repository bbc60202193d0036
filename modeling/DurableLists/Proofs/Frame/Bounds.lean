import DurableLists.Proofs.Frame.Exact

/-!
# Frames are read within bounds

`decode?` reads a frame once more, step by step and with care: a slice that is too long, a number in octets that
are not there, a hidden octet and a sum of lengths that no word of 64 bits can hold have no result. It has one for
all octets, and the same as `decode`, if only the octets of the header or, where the frame is whole, of the frame
are shown (`decode?_showing`). And it ends in one of three ways (`existsUnique_endsIn`).
-/

set_option autoImplicit false

namespace DurableLists

namespace Frame

/-! ## Careful reading -/

/-- Octets of which some are hidden. -/
abbrev Cells := List (Option UInt8)

/-- A buffer with all octets hidden but the first ones. -/
def showing (n : Nat) (buffer : Bytes) : Cells :=
  buffer.mapIdx fun i octet => if i < n then some octet else none

/-- The first elements and the others, if there are as many. -/
def split? {α : Type} (n : Nat) (xs : List α) : Option (List α × List α) :=
  if n ≤ xs.length then some (xs.take n, xs.drop n) else none

/-- The octets of some cells, if none is hidden. -/
def reveal? (cells : Cells) : Option Bytes := cells.mapM id

/-- The number in the first octets and the octets after it. -/
def number? (width : Nat) (bs : Bytes) : Option (Nat × Bytes) := do
  let (front, rest) ← split? width bs
  return (Bytes.ofLE front, rest)

/-- The number in the octets at an offset. -/
def field? (offset width : Nat) (cells : Cells) : Option Nat := do
  let (_, rest) ← split? offset cells
  let (front, _) ← split? width rest
  return Bytes.ofLE (← reveal? front)

/-- The sum of two lengths, if it is a word of 64 bits. -/
def add? (m n : Nat) : Option Nat := if m + n < UInt64.size then some (m + n) else none

/-- Reads the lengths, the bucket, the key and the value, and makes a record of them and what has been read
before. -/
def decodeFields? (txId timestamp persistence : Nat) (kind : Kind) (status : Status) (bs : Bytes) :
    Option (Except Corruption Record) := do
  let (bucketLength, bs) ← number? 4 bs
  let (keyLength, bs) ← number? 4 bs
  let (valueLength, bs) ← number? 4 bs
  let total ← add? (← add? bucketLength keyLength) valueLength
  if bs.length ≠ total then return .error .lengthMismatch
  let (text, bs) ← split? bucketLength bs
  match Utf8.decode text with
  | .error fault => return .error (.bucketNotUtf8 fault)
  | .ok bucket =>
    let (key, bs) ← split? keyLength bs
    let (value, _) ← split? valueLength bs
    return .ok {
      bucket, key, value, kind, status
      timestamp := UInt64.ofNat timestamp
      persistence := UInt32.ofNat persistence
      txId := UInt64.ofNat txId }

/-- Reads the fixed part of a body, and then the rest. -/
def decodeBody? (bs : Bytes) : Option (Except Corruption Record) := do
  let (txId, bs) ← number? 8 bs
  let (timestamp, bs) ← number? 8 bs
  let (persistence, bs) ← number? 4 bs
  let (flag, bs) ← number? 2 bs
  match Kind.ofFlag? (UInt16.ofNat flag) with
  | none => return .error (.unknownKind (UInt16.ofNat flag))
  | some kind =>
    let (tag, bs) ← number? 2 bs
    if UInt16.ofNat tag ≠ listTag then return .error (.unknownStructure (UInt16.ofNat tag))
    let (mark, bs) ← number? 1 bs
    match status? (UInt8.ofNat mark) with
    | none => return .error (.unknownStatus (UInt8.ofNat mark))
    | some status => decodeFields? txId timestamp persistence kind status bs

/-- Takes a frame off some cells and checks its body; gives also the cells that are left. -/
def takeFrame? (checksum bodyLength : Nat) (cells : Cells) : Option (Found × Cells) := do
  let (_, cells) ← split? headerLength cells
  let (front, rest) ← split? bodyLength cells
  let body ← reveal? front
  if (Checksum.crc32c body).toNat ≠ checksum then return (.corrupt .checksumMismatch, rest)
  match ← decodeBody? body with
  | .ok r => return (.record r, rest)
  | .error cause => return (.corrupt cause, rest)

/-- Reads the frame at the front of some cells and gives the cells that are left. -/
def decode? (cells : Cells) : Option (Found × Cells) := do
  if cells.length < headerLength then return (.incomplete, cells)
  let checksum ← field? 0 4 cells
  let bodyLength ← field? 4 4 cells
  if bodyLength < fixedLength then return (.corrupt (.shortBody bodyLength), cells)
  let total ← add? headerLength bodyLength
  if cells.length < total then return (.incomplete, cells)
  takeFrame? checksum bodyLength cells

/-! ## Nothing is out of bounds -/

theorem split?_of_le {α : Type} {n : Nat} {xs : List α} (h : n ≤ xs.length) :
    split? n xs = some (xs.take n, xs.drop n) := if_pos h

theorem reveal?_map_some (bs : Bytes) : reveal? (bs.map some) = some bs := by
  induction bs with
  | nil => rfl
  | cons b bs ih =>
    rw [reveal?] at ih
    rw [reveal?, List.map_cons, List.mapM_cons, ih]
    rfl

theorem number?_drop {offset width : Nat} {bs : Bytes} (h : offset + width ≤ bs.length) :
    number? width (bs.drop offset) = some (field offset width bs, bs.drop (offset + width)) := by
  have hroom : width ≤ (bs.drop offset).length := by
    rw [List.length_drop]
    omega
  rw [number?, split?_of_le hroom, ← List.drop_drop]
  rfl

theorem add?_of_lt {m n : Nat} (h : m + n < UInt64.size) : add? m n = some (m + n) := if_pos h

/-- The lengths of the bucket, the key and the value, of 32 bits each, have a sum of 64 bits. -/
theorem add?_lengths (bs : Bytes) :
    add? (field 25 4 bs) (field 29 4 bs) = some (field 25 4 bs + field 29 4 bs) ∧
      add? (field 25 4 bs + field 29 4 bs) (field 33 4 bs) =
        some (field 25 4 bs + field 29 4 bs + field 33 4 bs) := by
  have hlimit : UInt64.size = 256 ^ 8 := rfl
  have hbucket : field 25 4 bs < 256 ^ 4 := field_lt 25 4 bs
  have hkey : field 29 4 bs < 256 ^ 4 := field_lt 29 4 bs
  have hvalue : field 33 4 bs < 256 ^ 4 := field_lt 33 4 bs
  exact ⟨add?_of_lt (by omega), add?_of_lt (by omega)⟩

theorem add?_announced (buffer : Bytes) : add? headerLength (field 4 4 buffer) = some (announced buffer) := by
  have hsize : headerLength = 8 := rfl
  have hlimit : UInt64.size = 256 ^ 8 := rfl
  have hbody : field 4 4 buffer < 256 ^ 4 := field_lt 4 4 buffer
  exact add?_of_lt (by omega)

theorem decodeFields?_eq {bs : Bytes} (h : fixedLength ≤ bs.length) (kind : Kind) (status : Status) :
    decodeFields? (field 0 8 bs) (field 8 8 bs) (field 16 4 bs) kind status (bs.drop 25) =
      some (decodeFields (bs.take fixedLength) (bs.drop fixedLength) kind status) := by
  have hsize : fixedLength = 37 := rfl
  have hfields (offset width : Nat) (ho : offset + width ≤ fixedLength) :
      field offset width (bs.take fixedLength) = field offset width bs := field_take ho h
  obtain ⟨hfirst, hboth⟩ := add?_lengths bs
  have hcut (n : Nat) (ho : 25 ≤ n ∧ n ≤ 33) :
      number? 4 (bs.drop n) = some (field n 4 bs, bs.drop (n + 4)) := number?_drop (by omega)
  simp only [decodeFields, hfields 0 8 (by decide), hfields 8 8 (by decide), hfields 16 4 (by decide),
    hfields 25 4 (by decide), hfields 29 4 (by decide), hfields 33 4 (by decide)]
  simp only [decodeFields?, hcut 25 (by decide), hcut 29 (by decide), hcut 33 (by decide), hfirst,
    hboth, Option.bind_eq_bind, Option.bind_some, Nat.reduceAdd, hsize]
  by_cases hlength : (bs.drop 37).length = field 25 4 bs + field 29 4 bs + field 33 4 bs
  · rw [if_neg (not_not_intro hlength), if_neg (not_not_intro hlength), split?_of_le (by omega)]
    have hkeyRoom : field 29 4 bs ≤ ((bs.drop 37).drop (field 25 4 bs)).length := by
      rw [List.length_drop]
      omega
    -- the lengths add up, so the value is all that is left
    have hvalueAll : (((bs.drop 37).drop (field 25 4 bs)).drop (field 29 4 bs)).length = field 33 4 bs := by
      rw [List.length_drop, List.length_drop]
      omega
    simp only [Option.bind_some]
    cases Utf8.decode ((bs.drop 37).take (field 25 4 bs)) with
    | error fault => rfl
    | ok bucket =>
      rw [split?_of_le hkeyRoom]
      simp only [Option.bind_some]
      rw [split?_of_le (Nat.le_of_eq hvalueAll.symm), List.take_of_length_le (Nat.le_of_eq hvalueAll)]
      rfl
  · rw [if_pos hlength, if_pos hlength]
    rfl

/-- The body of a frame is read within bounds if it has the fixed part. -/
theorem decodeBody?_eq {bs : Bytes} (h : fixedLength ≤ bs.length) : decodeBody? bs = some (decodeBody bs) := by
  have hsize : fixedLength = 37 := rfl
  have hcut (n width : Nat) (ho : n + width ≤ 25) :
      number? width (bs.drop n) = some (field n width bs, bs.drop (n + width)) := number?_drop (by omega)
  have hid : number? 8 bs = some (field 0 8 bs, bs.drop 8) := hcut 0 8 (by decide)
  simp only [decodeBody?, hid, hcut 8 8 (by decide), hcut 16 4 (by decide), hcut 20 2 (by decide),
    Option.bind_eq_bind, Option.bind_some, Nat.reduceAdd, decodeBody]
  cases Kind.ofFlag? (UInt16.ofNat (field 20 2 bs)) with
  | none => rfl
  | some kind =>
    simp only [hcut 22 2 (by decide), Option.bind_some, Nat.reduceAdd]
    by_cases htag : UInt16.ofNat (field 22 2 bs) = listTag
    · rw [if_neg (not_not_intro htag), if_neg (not_not_intro htag)]
      simp only [hcut 24 1 (by decide), Option.bind_some, Nat.reduceAdd]
      cases status? (UInt8.ofNat (field 24 1 bs)) with
      | none => rfl
      | some status => exact decodeFields?_eq h kind status
    · rw [if_pos htag, if_pos htag]
      rfl

/-! ## Hidden octets -/

theorem length_showing (n : Nat) (buffer : Bytes) : (showing n buffer).length = buffer.length :=
  List.length_mapIdx

theorem getElem?_showing (n : Nat) (buffer : Bytes) (i : Nat) :
    (showing n buffer)[i]? = buffer[i]?.map fun octet => if i < n then some octet else none :=
  List.getElem?_mapIdx

theorem drop_showing (n k : Nat) (buffer : Bytes) :
    (showing n buffer).drop k = showing (n - k) (buffer.drop k) := by
  apply List.ext_getElem?
  intro i
  have hshift : i < n - k ↔ k + i < n := by omega
  rw [List.getElem?_drop, getElem?_showing, getElem?_showing, List.getElem?_drop]
  simp only [hshift]

theorem take_showing {n k : Nat} (h : k ≤ n) (buffer : Bytes) :
    (showing n buffer).take k = (buffer.take k).map some := by
  apply List.ext_getElem?
  intro i
  rw [List.getElem?_map, List.getElem?_take, List.getElem?_take, getElem?_showing]
  split
  · simp only [show i < n by omega, if_true]
  · rfl

theorem field?_showing {offset width n : Nat} {buffer : Bytes} (h : offset + width ≤ n)
    (hlong : offset + width ≤ buffer.length) :
    field? offset width (showing n buffer) = some (field offset width buffer) := by
  have hoffset : offset ≤ (showing n buffer).length := by
    rw [length_showing]
    omega
  have hwidth : width ≤ (showing (n - offset) (buffer.drop offset)).length := by
    rw [length_showing, List.length_drop]
    omega
  have hfront := take_showing (n := n - offset) (k := width) (by omega) (buffer.drop offset)
  simp only [field?, split?_of_le hoffset, drop_showing, split?_of_le hwidth, hfront, reveal?_map_some,
    Option.bind_eq_bind, Option.bind_some]
  rfl

/-! ## The octets that are read -/

/-- How many octets at the front of a buffer decide what is found there: none if it has no header, all of the frame if
the frame is whole, and the header otherwise. -/
def needed (buffer : Bytes) : Nat :=
  if buffer.length < headerLength then 0
  else if field 4 4 buffer < fixedLength ∨ buffer.length < announced buffer then headerLength
  else announced buffer

/-- The octets that are taken from a buffer. -/
def taken (buffer : Bytes) : Nat := buffer.length - (decode buffer).2.length

theorem needed_le_announced (buffer : Bytes) : needed buffer ≤ announced buffer := by
  have hheader : headerLength ≤ announced buffer := Nat.le_add_right _ _
  unfold needed
  split
  · exact Nat.zero_le _
  · split
    · exact hheader
    · exact Nat.le_refl _

section

variable {buffer : Bytes} {n : Nat}

theorem takeFrame?_showing (h : Whole buffer) (hn : announced buffer ≤ n) (checksum : Nat) :
    takeFrame? checksum (field 4 4 buffer) (showing n buffer) =
      some (check checksum ((buffer.drop headerLength).take (field 4 4 buffer)),
        (showing n buffer).drop (announced buffer)) := by
  obtain ⟨hfixed, hlong⟩ := h
  rw [announced] at hlong hn ⊢
  have hheader : headerLength ≤ (showing n buffer).length := by
    rw [length_showing]
    omega
  have hbody : field 4 4 buffer ≤ (showing (n - headerLength) (buffer.drop headerLength)).length := by
    rw [length_showing, List.length_drop]
    omega
  have hfront := take_showing (n := n - headerLength) (k := field 4 4 buffer) (by omega) (buffer.drop headerLength)
  have hsize : fixedLength ≤ ((buffer.drop headerLength).take (field 4 4 buffer)).length := by
    rw [List.length_take, List.length_drop]
    omega
  rw [← List.drop_drop, drop_showing n headerLength]
  simp only [takeFrame?, split?_of_le hheader, drop_showing n headerLength, split?_of_le hbody, hfront,
    reveal?_map_some, Option.bind_eq_bind, Option.bind_some, check]
  split
  · rfl
  · rw [decodeBody?_eq hsize, Option.bind_some]
    cases decodeBody ((buffer.drop headerLength).take (field 4 4 buffer)) with
    | ok r => rfl
    | error cause => rfl

theorem decode?_of_header (h : headerLength ≤ buffer.length) (hn : headerLength ≤ n) :
    decode? (showing n buffer) =
      if field 4 4 buffer < fixedLength then
        some (.corrupt (.shortBody (field 4 4 buffer)), showing n buffer)
      else if buffer.length < announced buffer then some (.incomplete, showing n buffer)
      else takeFrame? (field 0 4 buffer) (field 4 4 buffer) (showing n buffer) := by
  have hsize : headerLength = 8 := rfl
  rw [decode?, if_neg (by rw [length_showing]; omega)]
  simp only [field?_showing (show 0 + 4 ≤ n by omega) (show 0 + 4 ≤ buffer.length by omega),
    field?_showing (show 4 + 4 ≤ n by omega) (show 4 + 4 ≤ buffer.length by omega), add?_announced,
    length_showing, Option.bind_eq_bind, Option.bind_some]
  rfl

/-- The careful reading has a result, which is that of the reading, whatever the octets are that are not needed. -/
theorem decode?_showing (hn : needed buffer ≤ n) :
    decode? (showing n buffer) = some ((decode buffer).1, (showing n buffer).drop (taken buffer)) := by
  obtain hpartial | hshort | hwhole := partial_or_short_or_whole buffer
  · have hstays : taken buffer = 0 := by rw [taken, decode_of_partial hpartial, Nat.sub_self]
    rw [hstays, List.drop_zero, decode_of_partial hpartial]
    by_cases hheader : headerLength ≤ buffer.length
    · obtain ⟨hfixed, hcut⟩ := hpartial.resolve_left (Nat.not_lt.mpr hheader)
      rw [needed, if_neg (Nat.not_lt.mpr hheader), if_pos (Or.inr hcut)] at hn
      rw [decode?_of_header hheader hn, if_neg (Nat.not_lt.mpr hfixed), if_pos hcut]
    · rw [decode?, if_pos (by rw [length_showing]; omega)]
      rfl
  · have hstays : taken buffer = 0 := by rw [taken, decode_of_short hshort, Nat.sub_self]
    obtain ⟨hheader, hsmall⟩ := id hshort
    rw [needed, if_neg (Nat.not_lt.mpr hheader), if_pos (Or.inl hsmall)] at hn
    rw [hstays, List.drop_zero, decode?_of_header hheader hn, if_pos hsmall, decode_of_short hshort]
  · have htaken : taken buffer = announced buffer := by
      rw [taken, decode_of_whole hwhole, List.length_drop]
      exact Nat.sub_sub_self hwhole.2
    obtain ⟨hfixed, hlong⟩ := id hwhole
    have hheader : headerLength ≤ buffer.length := Nat.le_trans (Nat.le_add_right _ _) hlong
    have hbig : ¬(field 4 4 buffer < fixedLength ∨ buffer.length < announced buffer) := by omega
    rw [needed, if_neg (Nat.not_lt.mpr hheader), if_neg hbig] at hn
    have hheaderShown : headerLength ≤ n := Nat.le_trans (Nat.le_add_right _ _) hn
    rw [htaken, decode?_of_header hheader hheaderShown, if_neg (Nat.not_lt.mpr hfixed),
      if_neg (Nat.not_lt.mpr hlong), takeFrame?_showing hwhole hn, decode_of_whole hwhole]

-- With an octet of the header hidden there is no result.
example : decode? (showing 7 (List.replicate 8 0)) = none := rfl

end

/-! ## How a reading ends -/

/-- The ways in which the reading of a frame can end: it waits for more octets, or refuses what it sees, or takes
a frame off the buffer. -/
inductive Ending where
  | waits
  | refuses
  | takes

/-- Whether the reading of a buffer ends in some way. -/
def EndsIn (buffer : Bytes) : Ending → Prop
  | .waits => decode buffer = (.incomplete, buffer)
  | .refuses => ∃ cause, decode buffer = (.corrupt cause, buffer)
  | .takes =>
    ((∃ r, decode buffer = (.record r, buffer.drop (announced buffer))) ∨
      ∃ cause, decode buffer = (.corrupt cause, buffer.drop (announced buffer))) ∧
    headerLength + fixedLength ≤ announced buffer ∧ announced buffer ≤ buffer.length

section

variable {buffer : Bytes}

theorem endsIn_waits_iff : EndsIn buffer .waits ↔ Partial buffer :=
  ⟨fun h => partial_of_incomplete (congrArg Prod.fst h), decode_of_partial⟩

theorem endsIn_takes_iff : EndsIn buffer .takes ↔ Whole buffer := by
  refine ⟨fun ⟨_, hfixed, hlong⟩ => ⟨Nat.le_of_add_le_add_left hfixed, hlong⟩,
    fun h => ⟨?_, Nat.add_le_add_left h.1 headerLength, h.2⟩⟩
  rw [decode_of_whole h]
  obtain ⟨r, hr⟩ | ⟨cause, hcause⟩ := check_cases (field 0 4 buffer)
    ((buffer.drop headerLength).take (field 4 4 buffer))
  · exact .inl ⟨r, Prod.ext hr rfl⟩
  · exact .inr ⟨cause, Prod.ext hcause rfl⟩

theorem endsIn_refuses_iff : EndsIn buffer .refuses ↔ Short buffer := by
  refine ⟨fun ⟨cause, h⟩ => ?_, fun h => ⟨_, decode_of_short h⟩⟩
  obtain hpartial | hshort | hwhole := partial_or_short_or_whole buffer
  · rw [decode_of_partial hpartial] at h
    cases h
  · exact hshort
  · -- a whole frame is taken off, so the buffer would be shorter than itself
    have hsame : (buffer.drop (announced buffer)).length = buffer.length := by
      rw [decode_of_whole hwhole] at h
      exact congrArg (fun p => p.2.length) h
    obtain ⟨hfixed, hlong⟩ := hwhole
    have hpositive : 0 < announced buffer := Nat.add_pos_left (by decide) _
    rw [List.length_drop] at hsame
    omega

/-- The reading of a buffer ends in one way. -/
theorem existsUnique_endsIn (buffer : Bytes) : ∃! ending, EndsIn buffer ending := by
  obtain hpartial | hshort | hwhole := partial_or_short_or_whole buffer
  · refine ⟨.waits, endsIn_waits_iff.mpr hpartial, fun other hother => ?_⟩
    cases other with
    | waits => rfl
    | refuses => exact absurd hpartial (endsIn_refuses_iff.mp hother).not_partial
    | takes => exact absurd (endsIn_takes_iff.mp hother) hpartial.not_whole
  · refine ⟨.refuses, endsIn_refuses_iff.mpr hshort, fun other hother => ?_⟩
    cases other with
    | waits => exact absurd (endsIn_waits_iff.mp hother) hshort.not_partial
    | refuses => rfl
    | takes => exact absurd (endsIn_takes_iff.mp hother) hshort.not_whole
  · refine ⟨.takes, endsIn_takes_iff.mpr hwhole, fun other hother => ?_⟩
    cases other with
    | waits => exact absurd hwhole (endsIn_waits_iff.mp hother).not_whole
    | refuses => exact absurd hwhole (endsIn_refuses_iff.mp hother).not_whole
    | takes => rfl

end

/-- That the reading of a buffer is safe. It needs no octet beyond the frame, and with the octets that it needs the
careful reading has the same result; it ends in one way; and it refuses only where the length field is there and is
too small. -/
structure SafelyRead (buffer : Bytes) : Prop where
  inside : needed buffer ≤ announced buffer
  careful : ∀ n, needed buffer ≤ n →
    decode? (showing n buffer) = some ((decode buffer).1, (showing n buffer).drop (taken buffer))
  ending : ∃! ending, EndsIn buffer ending
  refusal : EndsIn buffer .refuses → headerLength ≤ buffer.length ∧ field 4 4 buffer < fixedLength

theorem safelyRead (buffer : Bytes) : SafelyRead buffer where
  inside := needed_le_announced buffer
  careful _ hn := decode?_showing hn
  ending := existsUnique_endsIn buffer
  refusal := endsIn_refuses_iff.mp

end Frame

end DurableLists

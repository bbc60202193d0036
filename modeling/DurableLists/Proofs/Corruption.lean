import DurableLists.Proofs.Checksum
import DurableLists.Proofs.Crash

/-!
# A log with one changed octet

No frame with one changed octet is read as a record (`Frame.decode_changed_ne_record`): a change of the body
changes its checksum, and a change of the length, which no checksum covers, disagrees with the lengths in
the body. But a length that is changed to more than the file has left looks like a frame that is not whole.
So a log with one changed octet is refused and left as it is, unless the changed frame announces more octets
than follow: then the log is opened as if it had been cut there, and is cut there
(`Session.open_changed_octet`).
-/

set_option autoImplicit false

namespace DurableLists

namespace Frame

/-! ## Buffers by the announced length -/

theorem incomplete_of_announced {buffer : Bytes} (hfixed : headerLength + fixedLength ≤ buffer.length)
    (h : buffer.length < announced buffer) : (decode buffer).1 = .incomplete := by
  have hpartial : Partial buffer := by
    rw [Partial]
    rw [announced] at h ⊢
    omega
  rw [decode_of_partial hpartial]

theorem not_incomplete_of_announced {buffer : Bytes} (hheader : headerLength ≤ buffer.length)
    (h : announced buffer ≤ buffer.length) : (decode buffer).1 ≠ .incomplete := by
  intro hincomplete
  have hpartial := partial_of_incomplete hincomplete
  rw [Partial] at hpartial
  omega

/-! ## Changed frames -/

def header (r : Record) : Bytes :=
  Bytes.toLE 4 (Checksum.crc32c (body r)).toNat ++ Bytes.toLE 4 (body r).length

theorem encode_eq (r : Record) : encode r = header r ++ body r := by
  rw [encode, header, List.append_assoc]

@[simp] theorem length_header (r : Record) : (header r).length = headerLength := by
  simp [header, headerLength]

theorem length_body_eq {r t : Record} (hr : Fits r) (ht : Fits t) {rest rest' : Bytes}
    (h : body r ++ rest = body t ++ rest') : (body r).length = (body t).length := by
  have hfixed : fixedPart r = fixedPart t := by
    have htake := congrArg (List.take fixedLength) h
    simpa only [body_eq, List.append_assoc, List.take_left' (length_fixedPart _)] using htake
  obtain ⟨-, -, -, -, -, -, hbucket, hkey, hvalue⟩ := fields_fixedPart r hr
  obtain ⟨-, -, -, -, -, -, hbucket', hkey', hvalue'⟩ := fields_fixedPart t ht
  rw [hfixed] at hbucket hkey hvalue
  rw [length_body, length_body]
  omega

theorem header_injective {r t : Record} (hr : Fits r) (ht : Fits t) (h : header r = header t) :
    Checksum.crc32c (body r) = Checksum.crc32c (body t) ∧ (body r).length = (body t).length := by
  obtain ⟨hcrc, hlength⟩ := header_encode_append r [] hr
  obtain ⟨hcrc', hlength'⟩ := header_encode_append t [] ht
  rw [List.append_nil, encode_eq, field_append_left _ _ _ _ (by simp [headerLength])] at hcrc hlength
  rw [List.append_nil, encode_eq, field_append_left _ _ _ _ (by simp [headerLength])] at hcrc' hlength'
  rw [h] at hcrc hlength
  exact ⟨UInt32.toNat_inj.mp (hcrc.symm.trans hcrc'), hlength.symm.trans hlength'⟩

/-- A frame with one changed octet is not read as a record, whatever follows it. -/
theorem decode_changed_ne_record {r : Record} (hfits : Fits r) (rest : Bytes) {o : Nat} {b : UInt8}
    (ho : o < (encode r).length) (hb : (encode r)[o]? ≠ some b) (t : Record) (rest' : Bytes) :
    decode ((encode r).set o b ++ rest) ≠ (.record t, rest') := by
  intro h
  obtain ⟨ht, hbuffer⟩ := encode_of_decode h
  rw [encode_eq r] at hbuffer hb
  rw [encode_eq t, List.append_assoc] at hbuffer
  rw [length_encode] at ho
  by_cases hheader : o < headerLength
  · -- The body stands as it was, so it is the body that is read, and the frame is the old one.
    rw [List.set_append_left _ _ (by rwa [length_header]), List.append_assoc] at hbuffer
    obtain ⟨hchanged, hbodies⟩ := List.append_inj hbuffer (by simp)
    have hlength := length_body_eq hfits ht hbodies
    obtain ⟨hbody, -⟩ := List.append_inj hbodies hlength
    have hsame : header t = header r := by rw [header, header, hbody]
    rw [hsame] at hchanged
    rw [List.getElem?_append_left (by rwa [length_header]), ← hchanged,
      List.getElem?_set_self (by rwa [length_header])] at hb
    exact hb rfl
  · -- The header stands as it was, so the changed body has the checksum and the length of the old one.
    rw [List.set_append_right _ _ (by rw [length_header]; omega), length_header, List.append_assoc]
      at hbuffer
    obtain ⟨hsame, hbodies⟩ := List.append_inj hbuffer (by simp)
    obtain ⟨hcrc, hlength⟩ := header_injective hfits ht hsame
    obtain ⟨hbody, -⟩ := List.append_inj hbodies (by rw [List.length_set, hlength])
    have hinside : o - headerLength < (body r).length := by omega
    have hold : body r = (body r).take (o - headerLength) ++
        (body r)[o - headerLength] :: (body r).drop (o - headerLength + 1) := by
      rw [← List.drop_eq_getElem_cons hinside, List.take_append_drop]
    have hchanged : body t = (body r).take (o - headerLength) ++
        b :: (body r).drop (o - headerLength + 1) := by
      rw [← hbody, List.set_eq_take_append_cons_drop, if_pos hinside]
    rw [hchanged] at hcrc
    have hoctets : [(body r)[o - headerLength]] = [b] := Checksum.eq_of_crc32c_eq _ _ rfl
      (Nat.le_of_ble_eq_true rfl) ((congrArg Checksum.crc32c hold).symm.trans hcrc)
    rw [List.getElem?_append_right (by rw [length_header]; omega), length_header,
      List.getElem?_eq_getElem hinside, List.singleton_inj.mp hoctets] at hb
    exact hb rfl

theorem announced_changed {r : Record} (hfits : Fits r) {o : Nat} (b : UInt8) (ho : o < 4 ∨ 8 ≤ o) :
    announced ((encode r).set o b) = (encode r).length := by
  have hfield : field 4 4 ((encode r).set o b) = field 4 4 (encode r) := by
    simp only [field]
    congr 1
    apply List.ext_getElem?
    intro i
    simp only [List.getElem?_take, List.getElem?_drop]
    split
    · rw [List.getElem?_set_ne (by omega)]
    · rfl
  rw [announced, hfield, ← announced, announced_encode hfits]

end Frame

namespace Commit

/-! ## Changed logs -/

/-- Where the frame of a record starts in a log: after the batches of the commits before its own, and the
frames before it in its own batch. -/
def frameStart (before : List Commit) (front : List Record) : Nat :=
  (Frame.encodeAll (records before ++ front)).length

/-- A log from the frame of a record on, with one octet of the frame changed: the rest of the batch and the
batches of the commits after it follow. -/
def changedRest (r : Record) (o : Nat) (b : UInt8) (back : List Record) (after : List Commit) : Bytes :=
  (Frame.encode r).set o b ++ Frame.encodeAll (back ++ records after)

section

variable {cs before after : List Commit} {c : Commit} {front back : List Record} {r : Record} {o : Nat}
  {b : UInt8}

theorem records_split (hcs : cs = before ++ c :: after) (hbatch : c.batch = front ++ r :: back) :
    records cs = (records before ++ front) ++ r :: (back ++ records after) := by
  rw [hcs, records_append, records_cons, hbatch]
  simp only [List.append_assoc, List.cons_append]

theorem octets_split (hcs : cs = before ++ c :: after) (hbatch : c.batch = front ++ r :: back) :
    octets cs = Frame.encodeAll (records before ++ front) ++
      (Frame.encode r ++ Frame.encodeAll (back ++ records after)) := by
  rw [octets, records_split hcs hbatch, Frame.encodeAll_append, Frame.encodeAll_cons]

theorem octets_set (hcs : cs = before ++ c :: after) (hbatch : c.batch = front ++ r :: back)
    (ho : o < (Frame.encode r).length) : (octets cs).set (frameStart before front + o) b =
      Frame.encodeAll (records before ++ front) ++ changedRest r o b back after := by
  rw [octets_split hcs hbatch, frameStart, List.set_append_right _ _ (Nat.le_add_right _ _),
    Nat.add_sub_cancel_left, List.set_append_left _ _ ho, changedRest]

theorem getElem?_octets (hcs : cs = before ++ c :: after) (hbatch : c.batch = front ++ r :: back)
    (ho : o < (Frame.encode r).length) : (octets cs)[frameStart before front + o]? =
      (Frame.encode r)[o]? := by
  rw [octets_split hcs hbatch, frameStart, List.getElem?_append_right (Nat.le_add_right _ _),
    Nat.add_sub_cancel_left, List.getElem?_append_left ho]

theorem length_octets (hcs : cs = before ++ c :: after) (hbatch : c.batch = front ++ r :: back) :
    (octets cs).length = frameStart before front + (changedRest r o b back after).length := by
  rw [octets_split hcs hbatch, frameStart, changedRest]
  simp only [List.length_append, List.length_set]

theorem le_length_changedRest :
    Frame.headerLength + Frame.fixedLength ≤ (changedRest r o b back after).length := by
  rw [changedRest, List.length_append, List.length_set, Frame.length_encode, Frame.length_body]
  omega

theorem announced_changedRest :
    Frame.announced (changedRest r o b back after) = Frame.announced ((Frame.encode r).set o b) := by
  have hlong : 8 ≤ ((Frame.encode r).set o b).length := by
    rw [List.length_set, Frame.length_encode, Frame.headerLength]
    omega
  rw [Frame.announced, Frame.announced, changedRest, Frame.field_append_left _ _ _ _ hlong]

/-- Where the changed frame announces more than is left, the log splits after the commits before it. -/
theorem splits_changed (hcs : cs = before ++ c :: after) (hbatch : c.batch = front ++ r :: back)
    (hpending : ∀ d ∈ cs, d.pending ≠ []) (hfits : ∀ t ∈ records cs, Frame.Fits t)
    (hover : (changedRest r o b back after).length < Frame.announced ((Frame.encode r).set o b)) :
    Scan.Splits (Frame.encodeAll (records before ++ front) ++ changedRest r o b back after)
      (records before) front (changedRest r o b back after) := by
  rw [records_split hcs hbatch] at hfits
  rw [hcs] at hpending
  rw [← announced_changedRest] at hover
  have hopen : ∀ t ∈ front, t.isCommitted = false := by
    have hprefix : c.batch.take front.length = front := by rw [hbatch, List.take_left]
    rw [← hprefix]
    refine (isBatch_batch (hpending c (by simp))).open_of_take ?_
    rw [hbatch, List.length_append, List.length_cons]
    omega
  refine ⟨rfl, fun t ht => hfits t (List.mem_append_left _ ht), ?_, hopen,
    Frame.incomplete_of_announced le_length_changedRest hover⟩
  exact settled_records before (fun d hd => hpending d (List.mem_append_left _ hd))
    fun t ht => hfits t (List.mem_append_left _ (List.mem_append_left _ ht))

theorem length_field_of_over (hfits : Frame.Fits r)
    (hover : (changedRest r o b back after).length < Frame.announced ((Frame.encode r).set o b)) :
    4 ≤ o ∧ o < 8 := by
  by_contra hother
  rw [changedRest, Frame.announced_changed hfits b (by omega), List.length_append, List.length_set] at hover
  omega

theorem corrupt_changed (hfits : Frame.Fits r) (ho : o < (Frame.encode r).length)
    (hb : (Frame.encode r)[o]? ≠ some b)
    (hwhole : Frame.announced ((Frame.encode r).set o b) ≤ (changedRest r o b back after).length) :
    ∃ cause, (Frame.decode (changedRest r o b back after)).1 = .corrupt cause := by
  have hheader : Frame.headerLength ≤ (changedRest r o b back after).length :=
    Nat.le_trans (Nat.le_add_right _ _) le_length_changedRest
  rw [← announced_changedRest] at hwhole
  have hnot := Frame.not_incomplete_of_announced hheader hwhole
  cases hdecode : Frame.decode (changedRest r o b back after) with
  | mk found rest =>
    cases found with
    | record t => exact absurd hdecode (Frame.decode_changed_ne_record hfits _ ho hb t rest)
    | incomplete =>
      rw [hdecode] at hnot
      exact absurd rfl hnot
    | corrupt cause => exact ⟨cause, rfl⟩

end

end Commit

namespace Session

/-! ## Opening a changed log -/

section

variable {cs before after : List Commit} {c : Commit} {front back : List Record} {r : Record} {o : Nat}
  {b : UInt8} {again : Config} {m : Machine} {place : Location}

/-- A log whose changed frame announces more than is left recovers the commits before that frame. -/
theorem recovers_overrun (hcs : cs = before ++ c :: after) (hbatch : c.batch = front ++ r :: back)
    {stop : Index} (hchained : Commit.Chained ∅ cs stop) (hseparate : Commit.Separate [] cs)
    (hfits : ∀ t ∈ Commit.records cs, Frame.Fits t) (ho : o < (Frame.encode r).length)
    (henabled : again.persistence.enabled = true)
    (hholds : m.disk.Holds again.persistence.logPath place
      ((Commit.octets cs).set (Commit.frameStart before front + o) b))
    (hover : (Commit.octets cs).length <
      Commit.frameStart before front + Frame.announced ((Frame.encode r).set o b)) :
    (∃ log rest, (LoadedLog.read again.persistence.logPath).run m = (.ok log, rest) ∧
      log.transactions = before.map Commit.batch) ∧
    ∃ db rest, (Database.open again).run m = (.ok db, rest) ∧ db.index = Commit.lastIndex ∅ before ∧
      rest.disk.read again.persistence.logPath =
        .ok ((Commit.octets cs).take (Commit.endOf cs before.length)) := by
  have hkept : cs.take before.length = before := by rw [hcs, List.take_left]
  rw [Commit.length_octets hcs hbatch, Nat.add_lt_add_iff_left] at hover
  have hsplits := Commit.splits_changed hcs hbatch (fun d hd => (hseparate d hd).1) hfits hover
  rw [Commit.octets_set hcs hbatch ho] at hholds
  rw [← hkept] at hsplits hholds
  have hrecovered := recovers_take hchained hseparate hsplits henabled hholds
  rwa [hkept] at hrecovered

/-- A log whose changed frame is there whole is refused, and no file changes. -/
theorem refuses_changed (hcs : cs = before ++ c :: after) (hbatch : c.batch = front ++ r :: back)
    (hfits : ∀ t ∈ Commit.records cs, Frame.Fits t) (ho : o < (Frame.encode r).length)
    (hb : (Commit.octets cs)[Commit.frameStart before front + o]? ≠ some b)
    (henabled : again.persistence.enabled = true)
    (hholds : m.disk.Holds again.persistence.logPath place
      ((Commit.octets cs).set (Commit.frameStart before front + o) b))
    (hwhole : Commit.frameStart before front + Frame.announced ((Frame.encode r).set o b) ≤
      (Commit.octets cs).length) :
    ∃ cause env, (Database.open again).run m = (.error (.logCorrupted cause), { m with env }) := by
  rw [Commit.records_split hcs hbatch] at hfits
  rw [Commit.octets_set hcs hbatch ho] at hholds
  rw [Commit.getElem?_octets hcs hbatch ho] at hb
  rw [Commit.length_octets hcs hbatch, Nat.add_le_add_iff_left] at hwhole
  obtain ⟨cause, hfound⟩ := Commit.corrupt_changed (hfits r (by simp)) ho hb hwhole
  have hread := Scan.readAll_frames_corrupt (Scan.flatten_chunks Disk.chunkSize (by decide) _)
    (fun t ht => hfits t (List.mem_append_left _ ht)) hfound
  obtain ⟨env, hopen⟩ := Database.open_corrupt henabled hholds hread
  exact ⟨cause, env, hopen⟩

end

variable {α : Type} {machine : Machine} {config : Config} {s : Session}

/-- A session that has started on no log, and one octet that is changed in the frame of a record of one of
its commits. If the changed frame then announces more octets than the file has left, which takes a change of
its length field, the log is opened with the commits before that one only, and is cut after them. Otherwise
it is refused as corrupt, and no file changes. -/
theorem open_changed_octet (hstart : Starts machine config [] s) (actions : List (Action α))
    (hstays : ∀ action ∈ actions, action.StaysOn config.persistence.logPath)
    (hfits : ∀ c ∈ commits actions s, ∀ r ∈ c.pending, Frame.Fits r)
    {before after : List Commit} {c : Commit} (hcommits : commits actions s = before ++ c :: after)
    {front back : List Record} {r : Record} (hbatch : c.batch = front ++ r :: back)
    {o : Nat} (ho : o < (Frame.encode r).length) {b : UInt8}
    (hb : (Commit.octets (commits actions s))[Commit.frameStart before front + o]? ≠ some b) :
    (run actions s).2.machine.disk.read config.persistence.logPath =
        .ok (Commit.octets (commits actions s)) ∧
      ∀ (again : Config) (m : Machine) (place : Location), again.persistence.enabled = true →
        m.disk.Holds again.persistence.logPath place
          ((Commit.octets (commits actions s)).set (Commit.frameStart before front + o) b) →
        ((Commit.octets (commits actions s)).length <
            Commit.frameStart before front + Frame.announced ((Frame.encode r).set o b) →
          (4 ≤ o ∧ o < 8) ∧
          (∃ log rest, (LoadedLog.read again.persistence.logPath).run m = (.ok log, rest) ∧
            log.transactions = before.map Commit.batch) ∧
          ∃ db rest, (Database.open again).run m = (.ok db, rest) ∧
            db.index = Commit.lastIndex ∅ before ∧
            rest.disk.read again.persistence.logPath = .ok ((Commit.octets (commits actions s)).take
              (Commit.endOf (commits actions s) before.length))) ∧
        (Commit.frameStart before front + Frame.announced ((Frame.encode r).set o b) ≤
            (Commit.octets (commits actions s)).length →
          ∃ cause env, (Database.open again).run m = (.error (.logCorrupted cause), { m with env })) := by
  obtain ⟨place, hbacked⟩ := hstart.backed_of_nil
  obtain ⟨⟨stop, hstop, hchained⟩, hseparate⟩ := advances_run actions hbacked hstays ⟨hfits, Or.inl rfl⟩
  rw [List.nil_append] at hstop
  have hstored := hstop.stored.fits
  refine ⟨hstop.stored.holds.read, ?_⟩
  intro again m place' henabled hholds
  refine ⟨fun hover => ⟨?_, ?_⟩, fun hwhole => ?_⟩
  · have hr : Frame.Fits r := hstored r (by simp [Commit.records_split hcommits hbatch])
    rw [Commit.length_octets hcommits hbatch, Nat.add_lt_add_iff_left] at hover
    exact Commit.length_field_of_over hr hover
  · exact recovers_overrun hcommits hbatch hchained hseparate hstored ho henabled hholds hover
  · exact refuses_changed hcommits hbatch hstored ho hb henabled hholds hwhole

/-! ## A log of two pushes -/

def pushActions : List (Action Unit) := [samplePush [97], samplePush [98]]

theorem sampleStart_starts : Starts (.fresh 100) sampleConfig [] sampleStart where
  enabled := rfl
  offers := Or.inr ⟨rfl, by cbv, by cbv, Answers.reliable_reliable⟩
  opened := Prod.ext (by cbv) rfl

set_option maxRecDepth 20000 in
theorem map_push_commits : (commits pushActions sampleStart).map (fun c => (c.txId, c.pending)) =
    [(1, [sampleRecord [97]]), (2, [sampleRecord [98]])] := by
  cbv

theorem exists_push_commits : ∃ index index', commits pushActions sampleStart =
    [⟨1, [sampleRecord [97]], index⟩, ⟨2, [sampleRecord [98]], index'⟩] := by
  obtain ⟨⟨_, _, index⟩, rest, hcommits, hfirst, hrest⟩ := List.map_eq_cons_iff.mp map_push_commits
  obtain ⟨⟨_, _, index'⟩, stop, rfl, hsecond, hstop⟩ := List.map_eq_cons_iff.mp hrest
  cases hfirst
  cases hsecond
  rw [List.map_eq_nil_iff.mp hstop] at hcommits
  exact ⟨index, index', hcommits⟩

/-- The first length in the log of two pushes, changed to more than the log has, loses both of them; the
octet after the header, changed, has the log refused. -/
theorem open_changed_push :
    (∃ db rest, (Database.open sampleConfig).run
        (sampleMachine ((Commit.octets (commits pushActions sampleStart)).set 7 1)) = (.ok db, rest) ∧
      db.index = ∅ ∧ rest.disk.read sampleConfig.persistence.logPath = .ok []) ∧
    ∃ cause env, (Database.open sampleConfig).run
        (sampleMachine ((Commit.octets (commits pushActions sampleStart)).set 8 0)) =
      (.error (.logCorrupted cause),
        { sampleMachine ((Commit.octets (commits pushActions sampleStart)).set 8 0) with env }) := by
  obtain ⟨index, index', hcommits⟩ := exists_push_commits
  have hstays : ∀ action ∈ pushActions, action.StaysOn sampleConfig.persistence.logPath := by
    simp [pushActions, samplePush, Action.StaysOn]
  have hfits : ∀ c ∈ commits pushActions sampleStart, ∀ r ∈ c.pending, Frame.Fits r := by
    rw [hcommits]
    simp only [List.forall_mem_cons]
    decide
  have hsplit : commits pushActions sampleStart =
    [] ++ ⟨1, [sampleRecord [97]], index⟩ :: [⟨2, [sampleRecord [98]], index'⟩] := hcommits
  have hbatch : (⟨1, [sampleRecord [97]], index⟩ : Commit).batch = [] ++ sampleSealed :: [] := rfl
  have hstart : Commit.frameStart [] [] = 0 := rfl
  have hlength : (Commit.octets (commits pushActions sampleStart)).length = 96 := by
    rw [Commit.octets, hcommits, Frame.length_encodeAll]
    cbv
  have hinside (o : Nat) (ho : o < 48) : o < (Frame.encode sampleSealed).length := by
    rwa [encode_sampleSealed]
  constructor
  · have hchanged : (Commit.octets (commits pushActions sampleStart))[Commit.frameStart [] [] + 7]? ≠
        some 1 := by
      rw [Commit.getElem?_octets hsplit hbatch (hinside 7 (by decide)), encode_sampleSealed]
      decide
    have hover : (Commit.octets (commits pushActions sampleStart)).length <
        Commit.frameStart [] [] + Frame.announced ((Frame.encode sampleSealed).set 7 1) := by
      rw [hlength, hstart, encode_sampleSealed]
      decide
    obtain ⟨-, hopen⟩ := open_changed_octet sampleStart_starts pushActions hstays hfits hsplit hbatch
      (hinside 7 (by decide)) hchanged
    rw [hstart] at hopen
    obtain ⟨-, -, db, rest, hrun, hindex, hread⟩ :=
      (hopen sampleConfig _ _ rfl (holds_sampleMachine _)).1 hover
    exact ⟨db, rest, hrun, hindex, hread⟩
  · have hchanged : (Commit.octets (commits pushActions sampleStart))[Commit.frameStart [] [] + 8]? ≠
        some 0 := by
      rw [Commit.getElem?_octets hsplit hbatch (hinside 8 (by decide)), encode_sampleSealed]
      decide
    have hwhole : Commit.frameStart [] [] + Frame.announced ((Frame.encode sampleSealed).set 8 0) ≤
        (Commit.octets (commits pushActions sampleStart)).length := by
      rw [hlength, hstart, encode_sampleSealed]
      decide
    obtain ⟨-, hopen⟩ := open_changed_octet sampleStart_starts pushActions hstays hfits hsplit hbatch
      (hinside 8 (by decide)) hchanged
    rw [hstart] at hopen
    obtain ⟨cause, env, hrun⟩ := (hopen sampleConfig _ _ rfl (holds_sampleMachine _)).2 hwhole
    exact ⟨cause, env, hrun⟩

end Session

end DurableLists

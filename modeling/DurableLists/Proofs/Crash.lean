import DurableLists.Proofs.Session.Starts

/-!
# A log that is cut at any octet

A log that is cut at some octet splits into the batches that end before the cut, the whole frames of the
batch that is cut, and a frame that is not whole (`Commit.exists_splits_take`). So a database that is opened
on it has the index after the last commit before the cut, and its file is cut back to the end of that commit
(`Session.open_after_crash`).
-/

set_option autoImplicit false

namespace DurableLists

theorem Frame.length_encodeAll (rs : List Record) :
    (encodeAll rs).length = (rs.map fun r => headerLength + (body r).length).sum := by
  rw [encodeAll, List.length_flatMap]
  simp only [length_encode]

namespace Commit

/-- Where the frames of the first commits of a list end in the log. -/
def endOf (commits : List Commit) (count : Nat) : Nat := (octets (commits.take count)).length

theorem endOf_zero (cs : List Commit) : endOf cs 0 = 0 := rfl

theorem endOf_succ_cons (c : Commit) (cs : List Commit) (k : Nat) :
    endOf (c :: cs) (k + 1) = (Frame.encodeAll c.batch).length + endOf cs k := by
  rw [endOf, octets, List.take_succ_cons, records_cons, Frame.encodeAll_append, List.length_append]
  rfl

theorem take_endOf (cs : List Commit) (k : Nat) :
    (octets cs).take (endOf cs k) = octets (cs.take k) := by
  have hsplit : records cs = records (cs.take k) ++ records (cs.drop k) := by
    rw [← records_append, List.take_append_drop]
  rw [endOf, octets, octets, hsplit, Frame.encodeAll_append, List.take_left]

theorem settled_records (cs : List Commit) (hpending : ∀ c ∈ cs, c.pending ≠ [])
    (hfits : ∀ r ∈ records cs, Frame.Fits r) : Scan.Settled (records cs) := by
  rcases List.eq_nil_or_concat cs with rfl | ⟨before, c, rfl⟩
  · rfl
  · rw [List.concat_eq_append, records_append, records_cons, records_nil, List.append_nil] at hfits ⊢
    exact Scan.settled_append_isBatch (isBatch_batch (hpending c (by simp))) hfits

/-- The frames of commits, cut somewhere: whole batches, open records, and a rest that is no whole frame. -/
theorem take_encodeAll_records (cs : List Commit) (hpending : ∀ c ∈ cs, c.pending ≠ [])
    (hfits : ∀ r ∈ records cs, Frame.Fits r) (n : Nat) :
    ∃ k dropped tail, k ≤ cs.length ∧
      (octets cs).take n = Frame.encodeAll (records (cs.take k) ++ dropped) ++ tail ∧
      (∀ r ∈ dropped, Frame.Fits r ∧ r.isCommitted = false) ∧ (Frame.decode tail).1 = .incomplete ∧
      ∀ j ≤ cs.length, endOf cs j ≤ n ↔ j ≤ k := by
  induction cs generalizing n with
  | nil =>
    refine ⟨0, [], [], Nat.le_refl _, by simp [octets], by simp, rfl, fun j hj => ?_⟩
    rw [List.length_nil, Nat.le_zero] at hj
    rw [hj, endOf_zero]
    simp
  | cons c cs ih =>
    rw [records_cons] at hfits
    by_cases hn : (Frame.encodeAll c.batch).length ≤ n
    · obtain ⟨k, dropped, tail, hk, htake, hdropped, htail, hends⟩ :=
        ih (fun d hd => hpending d (by simp [hd])) (fun r hr => hfits r (List.mem_append_right _ hr))
          (n - (Frame.encodeAll c.batch).length)
      refine ⟨k + 1, dropped, tail, by simpa using hk, ?_, hdropped, htail, fun j hj => ?_⟩
      · rw [octets, records_cons, Frame.encodeAll_append, List.take_append, List.take_of_length_le hn,
          ← octets, htake]
        simp only [List.take_succ_cons, records_cons, Frame.encodeAll_append, List.append_assoc]
      · cases j with
        | zero => simp [endOf_zero]
        | succ j =>
          have hj' := hends j (by simpa using hj)
          rw [endOf_succ_cons]
          omega
    · obtain ⟨j, tail, htake, htail, hlength⟩ :=
        Frame.take_encodeAll c.batch (fun r hr => hfits r (List.mem_append_left _ hr)) n
      have hj : j < c.batch.length := by
        by_contra hwhole
        rw [List.take_of_length_le (by omega)] at hlength
        omega
      refine ⟨0, c.batch.take j, tail, Nat.zero_le _, ?_, ?_, htail, fun i hi => ?_⟩
      · rw [octets, records_cons, Frame.encodeAll_append, List.take_append_of_le_length (by omega), htake]
        rfl
      · intro r hr
        exact ⟨hfits r (List.mem_append_left _ (List.mem_of_mem_take hr)),
          (isBatch_batch (hpending c (by simp))).open_of_take hj r hr⟩
      · cases i with
        | zero => simp [endOf_zero]
        | succ i =>
          rw [endOf_succ_cons]
          omega

theorem exists_splits_take (cs : List Commit) (hpending : ∀ c ∈ cs, c.pending ≠ [])
    (hfits : ∀ r ∈ records cs, Frame.Fits r) (n : Nat) :
    ∃ k dropped tail, k ≤ cs.length ∧ (∀ j ≤ cs.length, endOf cs j ≤ n ↔ j ≤ k) ∧
      Scan.Splits ((octets cs).take n) (records (cs.take k)) dropped tail := by
  obtain ⟨k, dropped, tail, hk, htake, hdropped, htail, hends⟩ :=
    take_encodeAll_records cs hpending hfits n
  have hkept : ∀ r ∈ records (cs.take k), Frame.Fits r := by
    intro r hr
    obtain ⟨c, hc, hr⟩ := List.mem_flatMap.mp hr
    exact hfits r (List.mem_flatMap.mpr ⟨c, List.mem_of_mem_take hc, hr⟩)
  refine ⟨k, dropped, tail, hk, hends, htake, ?_, ?_, fun r hr => (hdropped r hr).2, htail⟩
  · intro r hr
    rcases List.mem_append.mp hr with hr | hr
    · exact hkept r hr
    · exact (hdropped r hr).1
  · exact settled_records _ (fun c hc => hpending c (List.mem_of_mem_take hc)) hkept

end Commit

namespace Session

theorem recovers_take {cs : List Commit} {stop : Index} (hchained : Commit.Chained ∅ cs stop)
    (hseparate : Commit.Separate [] cs) {k : Nat} {content tail : Bytes} {dropped : List Record}
    (hsplits : Scan.Splits content (Commit.records (cs.take k)) dropped tail) {config : Config}
    (henabled : config.persistence.enabled = true) {m : Machine} {place : Location}
    (hholds : m.disk.Holds config.persistence.logPath place content) :
    (∃ log after, (LoadedLog.read config.persistence.logPath).run m = (.ok log, after) ∧
      log.transactions = (cs.take k).map Commit.batch) ∧
    ∃ db after, (Database.open config).run m = (.ok db, after) ∧
      db.index = Commit.lastIndex ∅ (cs.take k) ∧
      after.disk.read config.persistence.logPath = .ok ((Commit.octets cs).take (Commit.endOf cs k)) := by
  have htransactions : Scan.transactions (Commit.records (cs.take k)) = (cs.take k).map Commit.batch := by
    have h := (hseparate.take k).transactions.1
    rwa [List.nil_append, Scan.transactions_nil, List.nil_append] at h
  have hreplay := (hchained.take k).replay
  rw [← htransactions] at hreplay
  obtain ⟨log, env, hread, hreleased, -⟩ := LoadedLog.read_of_offers (Or.inl ⟨place, hholds⟩) hsplits
  obtain ⟨db, after, hopen, hopened, hindex⟩ := Database.open_of_splits henabled hholds hsplits hreplay
  refine ⟨⟨log, _, hread, ?_⟩, db, after, hopen, hindex, ?_⟩
  · rw [hreleased, htransactions]
  · rw [Commit.take_endOf]
    exact hopened.holds.read

variable {α : Type} {machine : Machine} {config : Config} {s : Session}

/-- A session that has started on no log, and whose log is cut at an octet: reading what is left gives the
batches of exactly the commits that end before the cut, and opening it succeeds, gives the index right after
the last of these commits, and cuts the file to the end of that commit. -/
theorem open_after_crash (hstart : Starts machine config [] s) (actions : List (Action α))
    (hstays : ∀ action ∈ actions, action.StaysOn config.persistence.logPath)
    (hfits : ∀ c ∈ commits actions s, ∀ r ∈ c.pending, Frame.Fits r) :
    (run actions s).2.machine.disk.read config.persistence.logPath =
        .ok (Commit.octets (commits actions s)) ∧
      ∀ (n : Nat) (again : Config) (m : Machine) (place : Location), again.persistence.enabled = true →
        m.disk.Holds again.persistence.logPath place ((Commit.octets (commits actions s)).take n) →
        ∃ k ≤ (commits actions s).length,
          (∀ j ≤ (commits actions s).length, Commit.endOf (commits actions s) j ≤ n ↔ j ≤ k) ∧
          (∃ log after, (LoadedLog.read again.persistence.logPath).run m = (.ok log, after) ∧
            log.transactions = ((commits actions s).take k).map Commit.batch) ∧
          ∃ db after, (Database.open again).run m = (.ok db, after) ∧
            db.index = Commit.lastIndex ∅ ((commits actions s).take k) ∧
            after.disk.read again.persistence.logPath = .ok ((Commit.octets (commits actions s)).take
              (Commit.endOf (commits actions s) k)) := by
  obtain ⟨place, hbacked⟩ := hstart.backed_of_nil
  obtain ⟨⟨stop, hstop, hchained⟩, hseparate⟩ := advances_run actions hbacked hstays ⟨hfits, Or.inl rfl⟩
  rw [List.nil_append] at hstop
  refine ⟨hstop.stored.holds.read, ?_⟩
  intro n again m place' henabled hholds
  obtain ⟨k, dropped, tail, hk, hends, hsplits⟩ := Commit.exists_splits_take (commits actions s)
    (fun c hc => (hseparate c hc).1) hstop.stored.fits n
  exact ⟨k, hk, hends, recovers_take hchained hseparate hsplits henabled hholds⟩

/-- A cut inside the last batch, which evicts a list and pushes another under its key: no part of it is left. -/
theorem open_after_cut_batch : ∃ db after,
    (Database.open sampleConfig).run
      (sampleMachine ((Commit.octets (commits sampleActions newLog)).take 249)) = (.ok db, after) ∧
    after.disk.read sampleConfig.persistence.logPath =
      .ok (Frame.encodeAll (Record.sealBatch 1 [sampleRecord [97], sampleRecord [98], stagedRecord .expire [53] 100] ++
        Record.sealBatch 2 [stagedRecord (.pop .head) [97] 100])) ∧
    ∃ log rest, (LoadedLog.read sampleConfig.persistence.logPath).run
        (sampleMachine ((Commit.octets (commits sampleActions newLog)).take 249)) = (.ok log, rest) ∧
      log.transactions =
        [Record.sealBatch 1 [sampleRecord [97], sampleRecord [98], stagedRecord .expire [53] 100],
          Record.sealBatch 2 [stagedRecord (.pop .head) [97] 100]] := by
  obtain ⟨k, hk, hends, ⟨log, rest, hread, htransactions⟩, db, after, hopen, -, hcut⟩ :=
    (open_after_crash newLog_starts sampleActions sampleActions_stay fun c hc => (newLog_fits c hc).1).2 249
      sampleConfig _ _ rfl (holds_sampleMachine _)
  have hlength : (commits sampleActions newLog).length = 3 := by
    rw [← List.length_map, newLog_commits]
    rfl
  have hrecords (j : Nat) : Commit.records ((commits sampleActions newLog).take j) =
      (((sampleCommitted 1).take j).map fun p => Record.sealBatch p.1 p.2).flatten := by
    rw [← newLog_commits, ← List.map_take, ← Commit.map_batch_of_map rfl, Commit.records, List.flatMap_def]
  have htwo : Commit.endOf (commits sampleActions newLog) 2 = 192 := by
    rw [Commit.endOf, Commit.octets, hrecords, Frame.length_encodeAll]
    cbv
  have hthree : Commit.endOf (commits sampleActions newLog) 3 = 287 := by
    rw [Commit.endOf, Commit.octets, hrecords, Frame.length_encodeAll]
    cbv
  have hsecond : k = 2 := by
    have h2 := hends 2 (by omega)
    have h3 := hends 3 (by omega)
    omega
  subst hsecond
  refine ⟨db, after, hopen, ?_, log, rest, hread, ?_⟩
  · rw [hcut, Commit.take_endOf, Commit.octets, hrecords]
    rfl
  · rw [htransactions, List.map_take, Commit.map_batch_of_map newLog_commits]
    rfl

end Session

end DurableLists

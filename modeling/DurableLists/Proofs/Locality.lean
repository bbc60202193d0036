import Mathlib
import DurableLists.Proofs.Index.Edits

/-!
# Replay is local to each key

What a replay makes of one key of one bucket, it makes by the records about that key alone, in their order: the
shorter replay succeeds and leaves the same list and the same expiry there. Hence two neighbouring records about
different keys, or about keys of different buckets, can be exchanged anywhere in a replay, and every record answers
what it answered before (`Index.replay_is_local`).

The key that a record is about is the one its command names, which is not always the key that the record holds.
-/

set_option autoImplicit false

namespace DurableLists

namespace Index

variable {start stop other middle : Index} {bucket : String} {key : Bytes} {r r' : Record} {rs ts : List Record}

/-! ## Answers of a replay -/

/-- A replay applies its records one after another and forgets what they answer. -/
theorem replay_eq_mapM (rs : List Record) : replay rs = rs.mapM applyRecord >>= fun _ => pure () := by
  induction rs with
  | nil => rfl
  | cons r rs ih =>
    rw [replay, ih]
    simp only [List.mapM_cons, bind_assoc, pure_bind]

theorem run_mapM_of_replay (h : (replay rs).run start = (.ok (), stop)) :
    ∃ counts, Attempt.run (rs.mapM applyRecord) start = (.ok counts, stop) ∧ counts.length = rs.length := by
  induction rs generalizing start with
  | nil =>
    cases h
    exact ⟨[], rfl, rfl⟩
  | cons r rs ih =>
    obtain ⟨count, next, hr, hrest⟩ := of_run_replay_cons h
    obtain ⟨counts, hcounts, hlength⟩ := ih hrest
    exact ⟨count :: counts, Attempt.run_mapM_cons hr hcounts, congrArg (· + 1) hlength⟩

/-! ## Replays of one key -/

theorem run_replay_about (h : (replay rs).run start = (.ok (), stop))
    (hlist : other.list? bucket key = start.list? bucket key)
    (hexpiry : other.expiry? bucket key = start.expiry? bucket key) :
    ∃ last, (replay (rs.filter fun r => r.subject? = some (bucket, key))).run other = (.ok (), last) ∧
      last.list? bucket key = stop.list? bucket key ∧ last.expiry? bucket key = stop.expiry? bucket key := by
  induction rs generalizing start other with
  | nil =>
    cases h
    exact ⟨other, rfl, hlist, hexpiry⟩
  | cons r rs ih =>
    obtain ⟨count, next, hr, hrest⟩ := of_run_replay_cons h
    obtain ⟨bucket', key', e, hsubject, rfl, hall⟩ := edit_of_applyRecord hr
    by_cases hsame : bucket' = bucket ∧ key' = key
    · obtain ⟨rfl, rfl⟩ := hsame
      rw [List.filter_cons_of_pos (by simpa using hsubject), run_replay_cons_ok (hall other hlist hexpiry)]
      refine ih hrest ?_ ?_
      · rw [list?_edit, list?_edit, hlist]
      · rw [expiry?_edit, expiry?_edit, hexpiry]
    · rw [List.filter_cons_of_neg (by simpa [hsubject] using hsame)]
      refine ih hrest ?_ ?_
      · rw [list?_edit, if_neg hsame, hlist]
      · rw [expiry?_edit, if_neg hsame, hexpiry]

/-! ## Exchanges -/

/-- Two records about different keys make the same index and the same answers in either order. -/
theorem applyRecord_comm {count count' : Nat} {next last : Index} (hr : (applyRecord r).run start = (.ok count, next))
    (hr' : (applyRecord r').run next = (.ok count', last)) (hapart : r.subject? ≠ r'.subject?) :
    ∃ next', (applyRecord r').run start = (.ok count', next') ∧ (applyRecord r).run next' = (.ok count, last) := by
  obtain ⟨bucket, key, e, hsubject, rfl, hall⟩ := edit_of_applyRecord hr
  obtain ⟨bucket', key', e', hsubject', rfl, hall'⟩ := edit_of_applyRecord hr'
  rw [hsubject, hsubject'] at hapart
  have hkeys : (bucket, key) ≠ (bucket', key') := fun h => hapart (congrArg some h)
  have hdiffer : ¬(bucket = bucket' ∧ key = key') := by
    rintro ⟨rfl, rfl⟩
    exact hkeys rfl
  have hdiffer' : ¬(bucket' = bucket ∧ key' = key) := fun ⟨hbucket, hkey⟩ => hdiffer ⟨hbucket.symm, hkey.symm⟩
  refine ⟨start.edit bucket' key' e', hall' _ ?_ ?_, ?_⟩
  · rw [list?_edit, if_neg hdiffer]
  · rw [expiry?_edit, if_neg hdiffer]
  · rw [edit_comm hkeys]
    refine hall _ ?_ ?_
    · rw [list?_edit, if_neg hdiffer']
    · rw [expiry?_edit, if_neg hdiffer']

theorem run_mapM_swap (h : (replay (rs ++ r :: r' :: ts)).run start = (.ok (), stop))
    (hapart : r.subject? ≠ r'.subject?) :
    ∃ before count count' after, before.length = rs.length ∧
      Attempt.run ((rs ++ r :: r' :: ts).mapM applyRecord) start =
        (.ok (before ++ count :: count' :: after), stop) ∧
      Attempt.run ((rs ++ r' :: r :: ts).mapM applyRecord) start =
        (.ok (before ++ count' :: count :: after), stop) := by
  obtain ⟨middle, hfront, hpair⟩ := of_run_replay_append h
  obtain ⟨count, next, hr, hsecond⟩ := of_run_replay_cons hpair
  obtain ⟨count', last, hr', hrear⟩ := of_run_replay_cons hsecond
  obtain ⟨next', hfirst', hsecond'⟩ := applyRecord_comm hr hr' hapart
  obtain ⟨before, hbefore, hlength⟩ := run_mapM_of_replay hfront
  obtain ⟨after, hafter, -⟩ := run_mapM_of_replay hrear
  refine ⟨before, count, count', after, hlength, ?_, ?_⟩
  · exact Attempt.run_mapM_append hbefore (Attempt.run_mapM_cons hr (Attempt.run_mapM_cons hr' hafter))
  · exact Attempt.run_mapM_append hbefore (Attempt.run_mapM_cons hfirst' (Attempt.run_mapM_cons hsecond' hafter))

/-- A replay makes of each key what the records about that key alone make of it, and neighbouring records about
different keys can be exchanged without changing the index at the end or what any record answers. -/
theorem replay_is_local (h : (replay rs).run start = (.ok (), stop)) :
    (∀ bucket key, ∃ last,
      (replay (rs.filter fun r => r.subject? = some (bucket, key))).run start = (.ok (), last) ∧
      last.list? bucket key = stop.list? bucket key ∧ last.expiry? bucket key = stop.expiry? bucket key) ∧
    ∀ front r r' rear, rs = front ++ r :: r' :: rear → r.subject? ≠ r'.subject? →
      (replay (front ++ r' :: r :: rear)).run start = (.ok (), stop) ∧
      ∃ before count count' after, before.length = front.length ∧
        Attempt.run (rs.mapM applyRecord) start = (.ok (before ++ count :: count' :: after), stop) ∧
        Attempt.run ((front ++ r' :: r :: rear).mapM applyRecord) start =
          (.ok (before ++ count' :: count :: after), stop) := by
  refine ⟨fun bucket key => run_replay_about h rfl rfl, ?_⟩
  rintro front r r' rear rfl hapart
  obtain ⟨before, count, count', after, hlength, horder, hswapped⟩ := run_mapM_swap h hapart
  refine ⟨?_, before, count, count', after, hlength, horder, hswapped⟩
  rw [replay_eq_mapM, Attempt.run_bind_ok hswapped]
  rfl

/-- Three records of which the last two hold the same key field, a key with a position in the one and a key as it is
in the other. -/
def neighbours : List Record :=
  [.ofCommand "b" (.push .tail [107] [97]) 5, .ofCommand "b" (.replace [107] 0 [98]) 6,
    .ofCommand "b" (.expire [107, 124, 48] 9) 7]

theorem replay_neighbours_swapped :
    (neighbours.map Record.key).tail = [[107, 124, 48], [107, 124, 48]] ∧
      (replay [.ofCommand "b" (.push .tail [107] [97]) 5, .ofCommand "b" (.expire [107, 124, 48] 9) 7,
        .ofCommand "b" (.replace [107] 0 [98]) 6]).run ∅ = (.ok (), ((replay neighbours).run ∅).2) := by
  refine ⟨by cbv, ?_⟩
  have hrun : (replay neighbours).run ∅ = (.ok (), ((replay neighbours).run ∅).2) := Prod.ext (by cbv) rfl
  have hreplace : (Record.ofCommand "b" (.replace [107] 0 [98]) 6).subject? = some ("b", [107]) := by cbv
  have hexpire : (Record.ofCommand "b" (.expire [107, 124, 48] 9) 7).subject? = some ("b", [107, 124, 48]) := by cbv
  have hapart : some ("b", ([107] : Bytes)) ≠ some ("b", [107, 124, 48]) := by decide
  rw [← hreplace, ← hexpire] at hapart
  exact ((replay_is_local hrun).2 [.ofCommand "b" (.push .tail [107] [97]) 5] _ _ [] rfl hapart).1

end Index

end DurableLists

import DurableLists.Proofs.Expiration
import DurableLists.Proofs.Tx.Exact

/-!
# Requests are all or nothing

At a clock that stands, a request that fails leaves the transaction as it was, and one that brings a reply has staged
the commands that belong to the reply, neither more nor fewer (`Request.perform_atomic`). One failure is different: a
transaction that writes and refuses a request because the list has expired has evicted the list.
-/

set_option autoImplicit false

namespace DurableLists

namespace Request

/-- Whether a request has failed in a transaction that writes because the key that it is about has expired. The time
that a list has left is asked for without the check that evicts. -/
structure RefusedExpired (committed : Index) (bucket : String) (now : UInt64) (tx : Tx) (request : Request) (e : Error)
    (key : Bytes) : Prop where
  failure : e = .keyNotFound
  about : request.key? = some key
  checks : request ≠ .ttl key
  writes : tx.isWritable = true
  expired : tx.SeesExpired committed bucket key now = true

variable {committed : Index} {bucket : String} {now : UInt64} {tx : Tx} {env : Env} {request : Request} {key : Bytes}

/-- Where a list has expired, a request that is not guarded has other ways to fail. -/
theorem run_perform_ne_keyNotFound (hwrites : tx.isWritable = true)
    (hexpired : tx.SeesExpired committed bucket key env.second = true) (habout : request.key? = some key)
    (hchecks : request ≠ .ttl key) (hunguarded : ¬request.Guarded key) :
    ((request.perform committed bucket).run ⟨tx, env⟩).1 ≠ .error .keyNotFound := by
  have hopen := Tx.isClosed_of_isWritable hwrites
  obtain ⟨store, hstore, -⟩ := Tx.SeesExpired.exists_store hexpired
  rcases of_key? habout with hneeds | hrevives | rfl | rfl | rfl
  · exact absurd hneeds.guarded hunguarded
  · cases request with
    | push side other values =>
      cases hrevives
      rw [perform, Tx.push, Attempt.run_bind, Attempt.run_bind_ok (Tx.run_checkWritable hwrites env)]
      cases hkey : containsSeparator key with
      | true => exact nofun
      | false =>
        have hnone : values = [] := by
          by_contra hvalues
          exact hunguarded ⟨rfl, hvalues, hkey⟩
        subst hnone
        exact nofun
    | expire other ttl =>
      obtain ⟨draft, rfl⟩ := Tx.exists_draft hwrites
      rw [perform, Attempt.run_bind_pure (Tx.run_expire hstore other ttl env)]
      exact nofun
    | _ => exact absurd hrevives id
  · obtain ⟨trace, hcheck⟩ := Tx.run_checkExpire_expired hopen hexpired
    rw [perform, Attempt.run_bind_pure hcheck]
    exact nofun
  · exact absurd rfl hchecks
  · rw [perform, Tx.expiry, Attempt.run_bind, Attempt.run_bind_ok (Tx.run_requireBucket hopen hstore)]
    exact nofun

/-- How a request ends that takes a transaction from one state to another at a second. If it fails, the transaction is
as it was; but one that writes and has refused the request because a list has expired has evicted this list. If it
brings a reply, a transaction that writes has staged the commands that belong to the reply, and no other has changed. -/
def Ends (committed : Index) (bucket : String) (now : UInt64) (tx tx' : Tx) (request : Request) :
    Except Error Reply → Prop
  | .error e =>
    (∀ key, request.RefusedExpired committed bucket now tx e key → tx.Evicts committed bucket key now tx') ∧
      ((∀ key, ¬request.RefusedExpired committed bucket now tx e key) → tx' = tx)
  | .ok reply => ∃ commands, request.Staged reply commands ∧
      (tx.isWritable = true →
        tx'.pending = tx.pending ++ commands.map fun command => Record.ofCommand bucket command now) ∧
      (tx.isWritable = false → tx' = tx)

theorem ends_refused {e : Error} (h : e = .keyNotFound → tx.isWritable = false) :
    request.Ends committed bucket now tx tx (.error e) := by
  refine ⟨fun key hrefused => ?_, fun _ => rfl⟩
  have hreads := h hrefused.failure
  rw [hrefused.writes] at hreads
  cases hreads

theorem ends_expired (hguarded : request.Guarded key)
    (hexpired : tx.SeesExpired committed bucket key now = true) :
    request.Ends committed bucket now tx (tx.evict committed bucket key now) (.error .keyNotFound) := by
  have hchecks : request ≠ .ttl key := by
    rintro rfl
    exact hguarded
  refine ⟨fun other hrefused => ?_, fun hnone => ?_⟩
  · have hother : key = other := Option.some.inj (hguarded.key?_eq.symm.trans hrefused.about)
    rw [← hother]
    exact Tx.evicts_evict hrefused.writes hexpired
  · refine Tx.evict_of_not_writable (Bool.eq_false_iff.mpr fun hwrites => ?_)
    exact hnone key ⟨rfl, hguarded.key?_eq, hchecks, hwrites, hexpired⟩

theorem ends_checkExpire (hexpired : tx.SeesExpired committed bucket key now = true) :
    (Request.checkExpire key).Ends committed bucket now tx (tx.evict committed bucket key now) (.ok (.flag true)) :=
  ⟨_, .expired key, fun hwrites => (Tx.evicts_evict hwrites hexpired).pending, Tx.evict_of_not_writable⟩

/-- What a request does that meets no expired list is what `exact_perform` says of it. -/
theorem ends_of_unmet (hopen : tx.isClosed = false) (hwrites : request.isChange = true → tx.isWritable = true)
    (hstands : env.Stands now) (hunmet : ∀ key, request.Guarded key ∨ request = .checkExpire key →
      tx.SeesExpired committed bucket key now = false) {outcome : Except Error Reply} {w : Tx.Work}
    (hrun : (request.perform committed bucket).run ⟨tx, env⟩ = (outcome, w)) :
    request.Ends committed bucket now tx w.tx outcome := by
  have hexact := exact_perform hopen hwrites hunmet ⟨tx, env⟩ ⟨rfl, hstands⟩
  rw [hrun] at hexact
  cases outcome with
  | error e =>
    refine ⟨fun key hrefused => ?_, fun _ => hexact⟩
    have hunguarded (hguarded : request.Guarded key) : False := by
      have hlive := hunmet key (Or.inl hguarded)
      rw [hrefused.expired] at hlive
      cases hlive
    have hexpired := hrefused.expired
    rw [← hstands.second] at hexpired
    have hfails := run_perform_ne_keyNotFound hrefused.writes hexpired hrefused.about hrefused.checks hunguarded
    rw [hrun, hrefused.failure] at hfails
    exact absurd rfl hfails
  | ok reply =>
    obtain ⟨commands, hstaged, hpending⟩ := hexact
    refine ⟨commands, hstaged, fun _ => hpending, fun hreads => ?_⟩
    have hgrows := grows_perform committed bucket request ⟨tx, env⟩
    rw [hrun] at hgrows
    exact hgrows.eq_of_not_writable hreads

/-- Requests are all or nothing: whatever a transaction is, a request at a clock that stands ends as `Ends` says. -/
theorem perform_atomic (hstands : env.Stands now) {outcome : Except Error Reply} {w : Tx.Work}
    (hrun : (request.perform committed bucket).run ⟨tx, env⟩ = (outcome, w)) :
    request.Ends committed bucket now tx w.tx outcome := by
  cases hopen : tx.isClosed with
  | true =>
    obtain rfl := Tx.eq_closed hopen
    rw [run_perform_closed] at hrun
    cases hrun
    exact ends_refused nofun
  | false =>
    by_cases hwrites : request.isChange = true → tx.isWritable = true
    · by_cases hmet : ∃ key, (request.Guarded key ∨ request = .checkExpire key) ∧
        tx.SeesExpired committed bucket key now = true
      · obtain ⟨key, hchecks, hexpired⟩ := hmet
        have hsees := hexpired
        rw [← hstands.second] at hsees
        rcases hchecks with hguarded | rfl
        · obtain ⟨trace, hrefused⟩ := run_perform_expired hguarded hopen hwrites hsees
          rw [hrefused, hstands.second] at hrun
          cases hrun
          exact ends_expired hguarded hexpired
        · obtain ⟨trace, hcheck⟩ := Tx.run_checkExpire_expired hopen hsees
          rw [perform, Attempt.run_bind_pure hcheck, hstands.second] at hrun
          cases hrun
          exact ends_checkExpire hexpired
      · refine ends_of_unmet hopen hwrites hstands (fun key hchecks => ?_) hrun
        exact Bool.eq_false_iff.mpr fun hexpired => hmet ⟨key, hchecks, hexpired⟩
    · obtain ⟨hchange, hreads⟩ := Classical.not_imp.mp hwrites
      cases tx with
      | reading =>
        rw [run_perform_reading committed bucket hchange] at hrun
        cases hrun
        exact ends_refused nofun
      | writing => exact absurd rfl hreads
      | closed => cases hopen

end Request

namespace Session

theorem push_answers : (((Request.push .tail [108] [[98], [99]]).perform agingOpen.db.index "b").run
    ⟨agingOpen.tx, agingOpen.machine.env⟩).1 = .ok .done := by
  cbv

theorem push_all_or_nothing :
    agingOpen.machine.env.Stands 200 ∧
    (∃ w, ((Request.push .tail [107] [[98], [99]]).perform agingOpen.db.index "b").run
        ⟨agingOpen.tx, agingOpen.machine.env⟩ = (.error .keyNotFound, w) ∧
      agingOpen.tx.Evicts agingOpen.db.index "b" [107] 200 w.tx) ∧
    ∃ w, ((Request.push .tail [108] [[98], [99]]).perform agingOpen.db.index "b").run
        ⟨agingOpen.tx, agingOpen.machine.env⟩ = (.ok .done, w) ∧
      w.tx.pending = [⟨"b", [108], [98], .push .tail, 200, 0, 0, .uncommitted⟩,
        ⟨"b", [108], [99], .push .tail, 200, 0, 0, .uncommitted⟩] := by
  have hguarded : (Request.push .tail [107] [[98], [99]]).Guarded [107] := ⟨rfl, by simp, by decide⟩
  have hexpired := agingOpen_sees_expired
  obtain ⟨trace, hrefused⟩ := Request.run_perform_expired hguarded rfl (fun _ => rfl) hexpired
  rw [agingOpen_stands.second] at hexpired
  have hends := Request.perform_atomic agingOpen_stands hrefused
  obtain ⟨commands, hstaged, hpending, -⟩ :=
    Request.perform_atomic agingOpen_stands (Prod.ext push_answers rfl)
  cases hstaged
  exact ⟨agingOpen_stands, ⟨_, hrefused, hends.1 [107] ⟨rfl, rfl, by simp, rfl, hexpired⟩⟩,
    _, Prod.ext push_answers rfl, hpending rfl⟩

end Session

end DurableLists

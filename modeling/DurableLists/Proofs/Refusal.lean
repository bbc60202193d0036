import DurableLists.Proofs.Expiration
import DurableLists.Proofs.Tx.Lacks

/-!
# Requests on an expired list

A list that an open transaction sees expired is hidden from it: every request that needs the list or adds to it is
refused, whichever checks it makes besides, and no listing brings the key. A transaction that reads stays as it is. One
that writes evicts the list at the first refusal, once, and from then on finds nothing under the key until the key is
revived (`Request.refused_until_revived`).
-/

set_option autoImplicit false

namespace DurableLists

/-- An open transaction sees a list expired at the second that it reads next. Then a request that is guarded is refused,
and so is one for the time that is left, and no listing brings the key. A transaction that reads stays as it is, so
that the list stays expired. One that writes has staged one deletion with the refusal of a guarded request, and lost
the list and the expiry, and nothing else; and after any requests that do not revive the key it finds nothing there:
the key has not expired, a request that needs the list is refused and stages nothing, and the first push begins a list
of the values that it brings, without an expiry. -/
theorem Request.refused_until_revived {committed : Index} {bucket : String} {key : Bytes} {tx : Tx} {env : Env}
    (hopen : tx.isClosed = false) (hexpired : tx.SeesExpired committed bucket key env.second = true) :
    (∀ request : Request, request.Guarded key → (request.isChange = true → tx.isWritable = true) →
      ∃ w, (request.perform committed bucket).run ⟨tx, env⟩ = (.error .keyNotFound, w) ∧
        (tx.isWritable = true → tx.Evicts committed bucket key env.second w.tx ∧
          ∀ between : List (String × Request), (∀ use ∈ between, use.1 = bucket → ¬use.2.Revives key) →
            (performAll committed between w).tx.FindsNothing committed bucket key)) ∧
    ((Request.ttl key).perform committed bucket).run ⟨tx, env⟩ = (.error .keyNotFound, ⟨tx, env.tick⟩) ∧
    (∀ (pattern : String) (last : Option Nat), ∃ (found : List Bytes) (trace : List Event),
      ((Request.keys pattern last).perform committed bucket).run ⟨tx, env⟩ =
        (.ok (.values found), ⟨tx, ⟨env.clock.tick, trace⟩⟩) ∧ key ∉ found) ∧
    (tx.isWritable = false → ∀ request : Request,
      ((request.perform committed bucket).run ⟨tx, env⟩).2.tx = tx) := by
  obtain ⟨store, hstore, hold⟩ := Tx.SeesExpired.exists_store hexpired
  refine ⟨fun request hguarded hwrites => ?_, ?_, fun pattern last => ?_, fun hreads request => ?_⟩
  · obtain ⟨trace, hrefused⟩ := run_perform_expired hguarded hopen hwrites hexpired
    refine ⟨_, hrefused, fun hwritable => ?_⟩
    have hevicts := Tx.evicts_evict hwritable hexpired
    refine ⟨hevicts, fun between hspares => ?_⟩
    have hlacks := hevicts.lacks (Tx.isWritable_evict.trans hwritable)
    exact (hlacks.performAll hspares _).findsNothing
  · exact Tx.run_ttl_expired hopen hexpired
  · obtain ⟨trace, hkeys⟩ := Tx.run_keys hopen hstore pattern last env
    refine ⟨_, trace, hkeys, fun hmem => ?_⟩
    rw [(Store.of_mem_listed hmem).2] at hold
    cases hold
  · exact (grows_perform committed bucket request ⟨tx, env⟩).eq_of_not_writable hreads

namespace Session

/-- Other requests that come between the refusal and the next push. -/
def agingBetween : List (String × Request) :=
  [("c", .push .tail [107] [[97]]), ("b", .trim [107] 0 (-1)), ("b", .keys "*" none)]

theorem pop_refused_then_pushed :
    agingOpen.tx.isClosed = false ∧
    agingOpen.tx.SeesExpired agingOpen.db.index "b" [107] agingOpen.machine.env.second = true ∧
    ∃ w, ((Request.pop .tail [107]).perform agingOpen.db.index "b").run ⟨agingOpen.tx, agingOpen.machine.env⟩ =
        (.error .keyNotFound, w) ∧
      w.tx.pending = [stagedRecord .delete [] 200] ∧
      ∃ w', ((Request.push .head [107] [[98], [99]]).perform agingOpen.db.index "b").run
          (Request.performAll agingOpen.db.index agingBetween w) = (.ok .done, w') ∧
        w'.tx.Shows agingOpen.db.index "b" [107] [[99], [98]] := by
  have hopen : agingOpen.tx.isClosed = false := rfl
  obtain ⟨w, hpop, hafter⟩ := (Request.refused_until_revived hopen agingOpen_sees_expired).1 (.pop .tail [107]) rfl
    fun _ => rfl
  obtain ⟨hevicts, hnothing⟩ := hafter rfl
  refine ⟨hopen, agingOpen_sees_expired, w, hpop, ?_, ?_⟩
  · rw [hevicts.pending, agingOpen_stands.second]
    rfl
  · have hspares : ∀ use ∈ agingBetween, use.1 = "b" → ¬use.2.Revives [107] := by
      simp [agingBetween, Request.Revives]
    exact (hnothing agingBetween hspares).begun (by decide) .head [[98], [99]] (by simp) _

end Session

end DurableLists

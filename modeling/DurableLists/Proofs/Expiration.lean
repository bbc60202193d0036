import DurableLists.Proofs.Index.Lists
import DurableLists.Proofs.Session.Starts
import DurableLists.Proofs.Tx.Reading

/-!
# Expired lists

Once a list has expired in the committed index, no read shows what was in it, whatever transactions do and commit
and however often the log is opened again, as long as no new expiry of the list is set before it is evicted
(`Session.expired_stays_hidden`): until then its expiry stands and the check before every read refuses it, and
afterwards it holds what has been put there since. Setting a new expiry is behind no such check, so that it brings
the list back.
-/

set_option autoImplicit false

namespace DurableLists

theorem Expiry.isExpired_mono {e : Expiry} {now later : UInt64} (h : e.isExpired now = true)
    (hlater : now ≤ later) : e.isExpired later = true := by
  rw [isExpired, Bool.and_eq_true, decide_eq_true_iff] at h ⊢
  have hle : now.toNat ≤ later.toNat := UInt64.le_iff_toNat_le.mp hlater
  exact ⟨h.1, by omega⟩

namespace Index

variable {index : Index} {bucket : String} {key : Bytes}

theorem isExpired_iff {now : UInt64} : index.isExpired bucket key now = true ↔
    ∃ expiry, index.expiry? bucket key = some expiry ∧ expiry.isExpired now = true := by
  rw [isExpired, expiry?]
  cases index.store? bucket with
  | none =>
    refine ⟨fun h => absurd h (by simp), ?_⟩
    rintro ⟨expiry, hexpiry, -⟩
    cases hexpiry
  | some store =>
    rw [Option.any_some, Store.isExpired, Option.any_eq_true]
    rfl

end Index

namespace Session

open Database

variable {α β : Type} {machine machine' : Machine} {config : Config} {content : Bytes} {s : Session}
  {log : LoadedLog}

/-- A list has expired at a moment of a run. After any further actions and any script on a transaction that the
session then offers, take the records that were committed since and those that the transaction has staged. If
they evict the list before they set a new expiry of it, then a read of the list at a later second answers with
nothing but elements that they have put there. But whatever has happened, a transaction that writes can set a
new expiry, and then a read shows the whole list that the transaction sees. -/
theorem expired_stays_hidden (hstart : Starts machine config content s)
    (hread : (LoadedLog.read config.persistence.logPath).run machine = (.ok log, machine'))
    (hlast : log.lastTxId.toNat < maxTxId) (before after : List (Action α))
    (hstays : ∀ action ∈ before ++ after, action.StaysOn config.persistence.logPath)
    (hfits : ∀ c ∈ commits before s ++ commits after (run before s).2, ∀ r ∈ c.pending, Frame.Fits r)
    (hids : ∀ c ∈ commits before s ++ commits after (run before s).2, c.txId.toNat < maxTxId)
    {live : Database} (hlive : (run before s).2.db = some live) {bucket : String} {key : Bytes}
    {now : UInt64} (hexpired : live.index.isExpired bucket key now = true) {first last : Handle}
    (hoffers : (run after (run before s).2).2.Offers first) (script : Script β) {outcome : Except Error β}
    (hrun : script.run.run first = (outcome, last)) (hsized : ∀ r ∈ last.tx.pending, r.Sized) {env : Env}
    (hlater : now ≤ env.second) {since : List Record}
    (hsince : since = Commit.records (commits after (run before s).2) ++ last.tx.pending) :
    (Record.EvictsFirst bucket key since → ∀ (request : Request) (reply : Reply) (w : Tx.Work),
      request.Reads key → (request.perform last.db.index bucket).run ⟨last.tx, env⟩ = (.ok reply, w) →
        reply.Within (Record.puts bucket key since)) ∧
    (last.tx.isWritable = true → ∀ (store : Store) (items : List Bytes),
      last.tx.visible last.db.index bucket = some store → store.list? key = some items →
      ∀ (ttl : UInt32) (later : Env), (Expiry.mk ttl env.second).isExpired later.second = false →
        ∃ w w', ((Request.expire key ttl).perform last.db.index bucket).run ⟨last.tx, env⟩ = (.ok .done, w) ∧
          ((Request.range key 0 (-1)).perform last.db.index bucket).run ⟨w.tx, later⟩ =
            (.ok (.values items), w')) := by
  refine ⟨fun hfirst request reply w hreads hreply => ?_, fun hwritable store items hstore hlist ttl later =>
    Request.shown_of_expire hwritable hstore hlist ttl⟩
  obtain ⟨place, kept, start, hbacked, -⟩ := hstart.backed_of_read hread hlast
  have hadmissible : Commit.Admissible kept (commits before s ++ commits after (run before s).2) :=
    ⟨hfits, Or.inr hids⟩
  obtain ⟨⟨index, hmoment, -⟩, hseparate⟩ := advances_run before hbacked
    (fun action haction => hstays action (List.mem_append_left _ haction)) hadmissible.left
  obtain ⟨⟨stop, hstop, hchained⟩, -⟩ := advances_run after hmoment
    (fun action haction => hstays action (List.mem_append_right _ haction)) (hadmissible.right hseparate)
  rw [(hmoment.running live hlive).2] at hexpired
  -- The transaction is open, so it works on the index that the actions have left.
  obtain ⟨hopen, hshown, hwithin⟩ := Request.shown_of_perform hreads hreply
  have hdb := script.db_of_open (h := first)
  have hsound := script.sound_run (hstop.sound.offered hoffers)
  rw [hrun] at hdb hsound
  have hindex : last.db.index = stop := by
    rw [(hdb hopen).1]
    exact (hstop.running first.db hoffers.db_eq).2
  obtain ⟨final, hpending, hvisible⟩ := hsound.replay_pending hsized
  have hcommitted : (Index.replay (Commit.records (commits after (run before s).2))).run index =
      (.ok (), last.db.index) := by
    rw [hindex]
    exact hchained.replay
  have hreplay : (Index.replay since).run index = (.ok (), final) := by
    rw [hsince, Index.run_replay_append hcommitted]
    exact hpending
  rcases Index.items_of_evictsFirst hreplay hfirst with hitems | hexpiry
  · refine hwithin.mono ?_
    rw [Tx.items, hvisible]
    exact hitems
  · -- The expiry still stands, so the read has been refused.
    obtain ⟨expiry, hthen, hold⟩ := Index.isExpired_iff.mp hexpired
    have hstill : final.isExpired bucket key env.second = true :=
      Index.isExpired_iff.mpr ⟨expiry, hexpiry.trans hthen, Expiry.isExpired_mono hold hlater⟩
    rw [Tx.SeesExpired, hvisible] at hshown
    rw [Index.isExpired, hshown] at hstill
    cases hstill

/-! ## A list that expires at once -/

/-- A machine whose clock leaps from one second to a later one at its fifth reading. -/
def agingMachine : Machine := ⟨.fresh, ⟨⟨fun i => if i < 4 then 100 else 200, fun _ => 0, 0⟩, []⟩⟩

def agingStart : Session := ((start agingMachine sampleConfig).reopen sampleConfig).2

/-- A push, and an expiry that has passed with the next reading. -/
def agingActions : List (Action Unit) :=
  [.update (.use (.list "b" (.push .tail [107] [[97]])) fun _ =>
    .use (.list "b" (.expire [107] 5)) fun _ => .done (.ok ()))]

/-- A push that meets the expired list and evicts it, and one that finds it gone. -/
def agingScript : Script Reply :=
  .use (.list "b" (.push .tail [107] [[98]])) fun _ => .use (.list "b" (.push .tail [107] [[98]])) .done

def agingOpen : Handle :=
  ⟨Tx.begin true, (run agingActions agingStart).2.db.get (by cbv), (run agingActions agingStart).2.machine⟩

theorem aging_starts : Starts agingMachine sampleConfig [] agingStart where
  enabled := rfl
  offers := Or.inr ⟨rfl, by cbv, by cbv, Answers.reliable_reliable⟩
  opened := Prod.ext (by cbv) rfl

set_option maxRecDepth 20000 in
theorem map_aging_commits : (commits agingActions agingStart).map (fun c => (c.txId, c.pending)) =
    [(1, [stagedRecord (.push .tail) [97] 100, stagedRecord .expire [53] 100])] := by
  cbv

theorem aging_fits : ∀ c ∈ commits agingActions agingStart,
    (∀ r ∈ c.pending, Frame.Fits r) ∧ c.txId.toNat < maxTxId := by
  obtain ⟨⟨_, _, index⟩, rest, hcommits, hfirst, hrest⟩ := List.map_eq_cons_iff.mp map_aging_commits
  cases hfirst
  rw [List.map_eq_nil_iff.mp hrest] at hcommits
  rw [hcommits]
  simp only [List.forall_mem_cons]
  decide

theorem aging_expired : ∃ live, (run agingActions agingStart).2.db = some live ∧
    live.index.isExpired "b" [107] 200 = true := by
  have h : ((run agingActions agingStart).2.db.any fun db => db.index.isExpired "b" [107] 200) = true := by cbv
  rw [Option.any_eq_true] at h
  exact h

theorem agingOpen_stands : agingOpen.machine.env.Stands 200 := by
  have hclock : (agingOpen.machine.env.clock.taken, agingOpen.machine.env.clock.wall) =
      (4, agingMachine.env.clock.wall) := by cbv
  obtain ⟨htaken, hwall⟩ := Prod.mk.inj hclock
  intro i hi
  rw [htaken] at hi
  rw [hwall, show agingMachine.env.clock.wall i = if i < 4 then 100 else 200 from rfl, if_neg (by omega)]

theorem agingOpen_sees_expired :
    agingOpen.tx.SeesExpired agingOpen.db.index "b" [107] agingOpen.machine.env.second = true := by
  cbv

set_option maxRecDepth 20000 in
theorem agingOpen_offered : (run agingActions agingStart).2.Offers agingOpen :=
  .fresh (Option.some_get _).symm fun _ => by cbv

theorem pending_agingScript : (agingScript.run.run agingOpen).2.tx.pending =
    [stagedRecord .delete [] 200, stagedRecord (.push .tail) [98] 200] := by
  cbv

theorem shown_after_eviction_and_renewal :
    (∃ w, ((Request.range [107] 0 (-1)).perform (agingScript.run.run agingOpen).2.db.index "b").run
        ⟨(agingScript.run.run agingOpen).2.tx, ⟨.still 300 0, []⟩⟩ = (.ok (.values [[98]]), w) ∧
      (Reply.values [[98]]).Within
        (Record.puts "b" [107] [stagedRecord .delete [] 200, stagedRecord (.push .tail) [98] 200])) ∧
    ∃ w w', ((Request.expire [107] 1000).perform agingOpen.db.index "b").run
        ⟨agingOpen.tx, ⟨.still 300 0, []⟩⟩ = (.ok .done, w) ∧
      ((Request.range [107] 0 (-1)).perform agingOpen.db.index "b").run ⟨w.tx, ⟨.still 400 0, []⟩⟩ =
        (.ok (.values [[97]]), w') := by
  obtain ⟨live, hlive, hexpired⟩ := aging_expired
  have hread : ((LoadedLog.read sampleConfig.persistence.logPath).run agingMachine).1 = .ok .empty := by cbv
  have hcommits : ∀ c ∈ commits agingActions agingStart ++
        commits ([] : List (Action Unit)) (run agingActions agingStart).2,
      (∀ r ∈ c.pending, Frame.Fits r) ∧ c.txId.toNat < maxTxId := by
    rw [commits, List.append_nil]
    exact aging_fits
  have hhidden (script : Script Reply) {since : List Record}
      (hsized : ∀ r ∈ (script.run.run agingOpen).2.tx.pending, r.Sized)
      (hsince : since = (script.run.run agingOpen).2.tx.pending) :=
    expired_stays_hidden aging_starts (Prod.ext hread rfl) (by decide) agingActions []
      (by simp [agingActions, Action.StaysOn]) (fun c hc => (hcommits c hc).1)
      (fun c hc => (hcommits c hc).2) hlive hexpired agingOpen_offered script rfl hsized
      (show 200 ≤ Env.second ⟨.still 300 0, []⟩ by decide) hsince
  constructor
  · have hrange : (((Request.range [107] 0 (-1)).perform (agingScript.run.run agingOpen).2.db.index "b").run
        ⟨(agingScript.run.run agingOpen).2.tx, ⟨.still 300 0, []⟩⟩).1 = .ok (.values [[98]]) := by cbv
    have hsized : ∀ r ∈ (agingScript.run.run agingOpen).2.tx.pending, r.Sized := by
      rw [pending_agingScript]
      simp only [List.forall_mem_cons, Record.Sized]
      decide
    have hshown := (hhidden agingScript hsized pending_agingScript.symm).1 (Or.inl ⟨rfl, rfl⟩)
    exact ⟨_, Prod.ext hrange rfl, hshown (.range [107] 0 (-1)) _ _ rfl (Prod.ext hrange rfl)⟩
  · have hlist : ((agingOpen.tx.visible agingOpen.db.index "b").bind fun store => store.list? [107]) =
        some [[97]] := by cbv
    obtain ⟨store, hstore, hlist⟩ := Option.bind_eq_some_iff.mp hlist
    have hnone : ∀ r ∈ ([] : List Record), r.Sized := List.forall_mem_nil _
    exact (hhidden (.done (.ok .done)) hnone rfl).2 rfl store [[97]] hstore hlist 1000 ⟨.still 400 0, []⟩
      (by decide)

end Session

end DurableLists

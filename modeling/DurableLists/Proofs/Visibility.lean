import DurableLists.Proofs.Session.Starts

/-!
# What a transaction sees

A transaction sees in each bucket what replaying its own records of that bucket makes of the committed store, and
it sees the buckets that are committed or that its records name (`Session.visible_eq_replay`). This needs no log
that takes every request: it holds on every machine, in every session that any actions reach, for every script on
every transaction that the session offers.
-/

set_option autoImplicit false

namespace DurableLists

namespace Session

open Database

variable {α β : Type} {machine : Machine} {config : Config}

/-- After any actions of a session and any script on a transaction of it that is then still open and writes, with
records that memory can hold, replaying the records of a bucket on the committed store of the bucket succeeds and
makes what the transaction sees; it sees the bucket if and only if the bucket is committed or one of its records
names it. -/
theorem visible_eq_replay (actions : List (Action α)) {before after : Handle} {outcome : Except Error β}
    (hoffers : (run actions (start machine config)).2.Offers before) (script : Script β)
    (hrun : script.run.run before = (outcome, after)) {draft : Draft} (hdraft : after.tx = .writing draft)
    (hsized : ∀ r ∈ draft.pending, r.Sized) (bucket : String) :
    (∀ first : Index, first.store? bucket = after.db.index.store? bucket →
      ∃ last, (Index.replay (draft.pending.filter fun r => r.bucket = bucket)).run first = (.ok (), last) ∧
        last.store? bucket = after.tx.visible after.db.index bucket) ∧
    ((after.tx.visible after.db.index bucket).isSome ↔
      (after.db.index.store? bucket).isSome ∨ ∃ r ∈ draft.pending, r.bucket = bucket) := by
  have hsound := script.sound_run ((sound_run actions (.start machine config)).offered hoffers)
  rw [hrun, hdraft] at hsound
  obtain ⟨index, hreplay, hvisible⟩ := hsound.replay_pending hsized
  rw [hdraft, hvisible]
  exact ⟨fun first hfirst => Index.run_replay_filter hreplay hfirst, Index.isSome_store?_of_replay hreplay⟩

/-! ## A transaction that pushes -/

def sampleOpen : Handle := ⟨Tx.begin true, sampleStart.db.get (by cbv), sampleStart.machine⟩

/-- A push, and a pop from a bucket that is not there. -/
def sampleScript : Script Reply :=
  .use (.list "b" (.push .tail [107] [[97]])) fun _ => .use (.list "c" (.pop .head [107])) .done

theorem sampleOpen_offered : sampleStart.Offers sampleOpen :=
  .fresh (Option.some_get _).symm fun _ => by cbv

theorem visible_after_push : ∃ draft, (sampleScript.run.run sampleOpen).2.tx = .writing draft ∧
    draft.pending = [sampleRecord [97]] ∧
    (∀ first : Index,
      first.store? "b" = (sampleScript.run.run sampleOpen).2.db.index.store? "b" →
      ∃ last, (Index.replay (draft.pending.filter fun r => r.bucket = "b")).run first = (.ok (), last) ∧
        last.store? "b" = (sampleScript.run.run sampleOpen).2.tx.visible
          (sampleScript.run.run sampleOpen).2.db.index "b") ∧
    (((sampleScript.run.run sampleOpen).2.tx.visible
        (sampleScript.run.run sampleOpen).2.db.index "b").isSome ↔
      ((sampleScript.run.run sampleOpen).2.db.index.store? "b").isSome ∨
        ∃ r ∈ draft.pending, r.bucket = "b") := by
  have hpending : (sampleScript.run.run sampleOpen).2.tx.pending = [sampleRecord [97]] := by cbv
  cases htx : (sampleScript.run.run sampleOpen).2.tx with
  | reading => cases htx ▸ hpending
  | closed => cases htx ▸ hpending
  | writing draft =>
    rw [htx] at hpending
    have hsized : ∀ r ∈ draft.pending, r.Sized := by
      intro r hr
      rw [show draft.pending = [sampleRecord [97]] from hpending, List.mem_singleton] at hr
      rw [hr]
      exact (show Frame.Fits (sampleRecord [97]) by decide).sized
    have hoffers : (run ([.reopen sampleConfig] : List (Action Unit))
        (start (.fresh 100) sampleConfig)).2.Offers sampleOpen := sampleOpen_offered
    rw [← htx]
    exact ⟨draft, htx, hpending, visible_eq_replay _ hoffers sampleScript rfl htx hsized "b"⟩

end Session

end DurableLists

import DurableLists.Proofs.Expiration
import DurableLists.Proofs.Tx.Guards

/-!
# Updates on an expired list

The expiry check evicts an expired list in a transaction that writes, and refuses the request that has met it. An
update that only pushes to the list fails by this refusal and drops the eviction with everything else that it has
staged, so that the next such update is refused again, and so on for ever (`Session.update_push_refused`).
-/

set_option autoImplicit false

namespace DurableLists

open Database

/-- A script that only pushes to an expired list ends with the refusal, after the eviction. -/
theorem Script.run_push_expired {h : Handle} {bucket : String} {key : Bytes}
    (hwritable : h.tx.isWritable = true) (hkey : containsSeparator key = false)
    (hexpired : h.tx.SeesExpired h.db.index bucket key h.machine.env.second = true) (side : Side)
    (value : Bytes) (values : List Bytes) :
    ∃ trace, (Script.ask (.list bucket (.push side key (value :: values)))).run.run h = (.error .keyNotFound,
      ⟨h.tx.evict h.db.index bucket key h.machine.env.second, h.db,
        { h.machine with env := ⟨h.machine.env.clock.tick, trace⟩ }⟩) := by
  obtain ⟨trace, hpush⟩ := Tx.run_push_expired hwritable hkey hexpired side value values
  refine ⟨trace, ?_⟩
  have hperform : (Use.list bucket (.push side key (value :: values))).perform.run h = (.error .keyNotFound,
      ⟨h.tx.evict h.db.index bucket key h.machine.env.second, h.db,
        { h.machine with env := ⟨h.machine.env.clock.tick, trace⟩ }⟩) := by
    simp only [Use.perform, Handle.onTx, Attempt.run_ofFn, Request.perform, Attempt.run_bind_error hpush]
  rw [Script.ask, Script.run, Attempt.run_bind, Attempt.run_outcome, hperform]
  rfl

namespace Session

/-- A session some readings of the clock later. -/
def later (n : Nat) (trace : List Event) (s : Session) : Session :=
  { s with machine.env := ⟨{ s.machine.env.clock with taken := s.machine.env.clock.taken + n }, trace⟩ }

theorem later_later (m n : Nat) (trace trace' : List Event) (s : Session) :
    (s.later m trace).later n trace' = s.later (m + n) trace' := by
  simp only [later, Nat.add_assoc]

/-- What an update does that pushes to an expired list: its transaction evicts the list, and is dropped. -/
theorem act_push_expired {s : Session} {db : Database} (hdb : s.db = some db) (hidle : s.isWriting = false)
    {bucket : String} {key : Bytes} (hkey : containsSeparator key = false)
    (hexpired : db.index.isExpired bucket key s.machine.env.second = true) (side : Side) (value : Bytes)
    (values : List Bytes) :
    ((Script.ask (.list bucket (.push side key (value :: values)))).run.run
        ⟨Tx.begin true, db, s.machine⟩).2.tx.pending =
      [Record.ofCommand bucket (.delete key) s.machine.env.second] ∧
    ∃ trace, act (.update (Script.ask (.list bucket (.push side key (value :: values))))) s =
      (.ok (.error .keyNotFound), s.later 1 trace) := by
  obtain ⟨trace, hscript⟩ := Script.run_push_expired (h := ⟨Tx.begin true, db, s.machine⟩) rfl hkey
    (show (Tx.begin true).SeesExpired db.index bucket key s.machine.env.second = true from hexpired)
    side value values
  refine ⟨by rw [hscript]; rfl, ?_⟩
  obtain ⟨trace', hwithin⟩ := run_within true (do
    let reply ← (Script.ask (.list bucket (.push side key (value :: values)))).run
    Handle.commit
    return reply) ⟨db, s.machine⟩
  rw [Attempt.run_bind_error hscript] at hwithin
  refine ⟨trace', ?_⟩
  rw [act, Session.update, hidle]
  simp only [Bool.false_eq_true, if_false, onDatabase, hdb, Database.update, hwithin, withValue, later]
  rfl

/-- However often an update pushes to a list that stays expired, the list is not evicted: each time the
transaction of the update stages the eviction, but the push is refused, and the update drops what has been
staged. Nothing changes but the clock and the trace. -/
theorem update_push_refused {s : Session} {db : Database} (hdb : s.db = some db) (hidle : s.isWriting = false)
    {bucket : String} {key : Bytes} (hkey : containsSeparator key = false)
    (hexpired : ∀ i, s.machine.env.clock.taken ≤ i →
      db.index.isExpired bucket key (s.machine.env.clock.wall i) = true)
    (side : Side) {values : List Bytes} (hvalues : values ≠ []) (n : Nat) :
    ((Script.ask (.list bucket (.push side key values))).run.run
        ⟨Tx.begin true, db, s.machine⟩).2.tx.pending =
      [Record.ofCommand bucket (.delete key) s.machine.env.second] ∧
    ∃ trace, run (List.replicate n (.update (Script.ask (.list bucket (.push side key values))))) s =
      (List.replicate n (.ok (.error .keyNotFound)), s.later n trace) := by
  cases values with
  | nil => exact absurd rfl hvalues
  | cons value values =>
    refine ⟨(act_push_expired hdb hidle hkey (hexpired _ (Nat.le_refl _)) side value values).1, ?_⟩
    induction n generalizing s with
    | zero => exact ⟨s.machine.env.trace, rfl⟩
    | succ n ih =>
      obtain ⟨-, trace, hact⟩ := act_push_expired hdb hidle hkey (hexpired _ (Nat.le_refl _)) side value values
      obtain ⟨trace', hrest⟩ := ih (s := s.later 1 trace) hdb hidle fun i hi =>
        hexpired i (Nat.le_of_succ_le hi)
      refine ⟨trace', ?_⟩
      rw [List.replicate_succ, List.replicate_succ, run, hact]
      simp only [hrest, later_later, Nat.add_comm 1 n]

theorem push_refused_twice : ∃ db, (run agingActions agingStart).2.db = some db ∧
    ∃ trace, run (List.replicate 2 (.update (Script.ask (.list "b" (.push .tail [107] [[98]])))))
        (run agingActions agingStart).2 =
      (List.replicate 2 (.ok (.error .keyNotFound)), (run agingActions agingStart).2.later 2 trace) := by
  obtain ⟨live, hlive, hexpired⟩ := aging_expired
  refine ⟨live, hlive, ?_⟩
  refine (update_push_refused hlive (by cbv) (by decide) (fun i hi => ?_) .tail (by simp) 2).2
  rw [show (run agingActions agingStart).2.machine.env.clock.wall i = 200 from agingOpen_stands i hi]
  exact hexpired

end Session

end DurableLists

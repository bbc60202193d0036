import Mathlib.Logic.Relation
import DurableLists.Proofs.Command.Justified
import DurableLists.Proofs.Tx.Faithful

/-!
# Staging

`Tx.Stages` is the one step by which a transaction moves on: it applies a justified command to its copy of a
bucket and keeps the record. Such steps keep a draft faithful (`Grows.sound`). The expiry check is known by
two equations, one for a list that has not expired and one for a list that has (`run_checkExpire_live`,
`run_checkExpire_expired`): then a transaction that writes evicts the list, which is such a step too.
-/

set_option autoImplicit false

namespace DurableLists

namespace Env

/-- What the next reading of the clock gives. -/
def second (env : Env) : UInt64 := env.clock.wall env.clock.taken

def tick (env : Env) : Env := { env with clock := env.clock.tick }

/-- Whether the clock gives one second at every further reading. -/
def Stands (now : UInt64) (env : Env) : Prop := ∀ i, env.clock.taken ≤ i → env.clock.wall i = now

variable {env : Env} {now : UInt64}

theorem Stands.second (h : env.Stands now) : env.second = now := h env.clock.taken (Nat.le_refl _)

theorem Stands.tick (h : env.Stands now) : env.tick.Stands now := fun i hi => h i (Nat.le_of_succ_le hi)

end Env

namespace Tx

/-- A transaction stages one command about a key, which is justified in its copy of a bucket; without a key it
stages nothing. -/
inductive Stages (committed : Index) (bucket : String) (key? : Option Bytes) : Tx → Tx → Prop where
  | stage {draft : Draft} {command : Command} {timestamp : UInt64} {count : Nat} {copy : Store}
      (about : key? = some command.key)
      (justified : command.Justified timestamp (copyOf committed bucket draft))
      (applied : (Store.apply command timestamp).run (copyOf committed bucket draft) = (.ok count, copy)) :
      Stages committed bucket key? (.writing draft)
        (.writing ⟨draft.pending ++ [Record.ofCommand bucket command timestamp],
          draft.working.install bucket copy⟩)

/-- A transaction gets from one state to another by staging. -/
abbrev Grows (committed : Index) (bucket : String) (key? : Option Bytes) : Tx → Tx → Prop :=
  Relation.ReflTransGen (Stages committed bucket key?)

variable {committed : Index} {bucket : String} {key : Bytes} {key? : Option Bytes} {draft : Draft} {tx tx' : Tx}
  {env : Env}

theorem exists_draft (h : tx.isWritable = true) : ∃ draft, tx = .writing draft := by
  cases tx with
  | writing draft => exact ⟨draft, rfl⟩
  | reading => cases h
  | closed => cases h

theorem isClosed_of_isWritable (h : tx.isWritable = true) : tx.isClosed = false := by
  obtain ⟨draft, rfl⟩ := exists_draft h
  rfl

theorem eq_closed (h : tx.isClosed = true) : tx = .closed := by
  cases tx with
  | closed => rfl
  | reading => cases h
  | writing draft => cases h

theorem Grows.isWritable_eq (h : Grows committed bucket key? tx tx') : tx'.isWritable = tx.isWritable := by
  induction h with
  | refl => rfl
  | tail _ hstep ih =>
    cases hstep
    exact ih

theorem Grows.isClosed_eq (h : Grows committed bucket key? tx tx') : tx'.isClosed = tx.isClosed := by
  induction h with
  | refl => rfl
  | tail _ hstep ih =>
    cases hstep
    exact ih

theorem Grows.eq_of_not_writable (h : Grows committed bucket key? tx tx') (hreads : tx.isWritable = false) :
    tx' = tx := by
  induction h with
  | refl => rfl
  | tail _ hstep ih =>
    subst ih
    cases hstep
    cases hreads

theorem Stages.sound (h : Stages committed bucket key? tx tx') (hsound : tx.Sound committed) : tx'.Sound committed := by
  cases h with
  | stage _ justified applied => exact hsound.stage justified applied

theorem Grows.sound (h : Grows committed bucket key? tx tx') (hsound : tx.Sound committed) : tx'.Sound committed := by
  induction h with
  | refl => exact hsound
  | tail _ hstep ih => exact hstep.sound ih

/-! ## The expiry check -/

/-- Whether a list that a transaction sees has expired. -/
def SeesExpired (committed : Index) (bucket : String) (key : Bytes) (second : UInt64) (tx : Tx) : Bool :=
  (tx.visible committed bucket).any fun store => store.isExpired key second

/-- A writing transaction that has staged the deletion of a key; a reading one stays as it is. -/
def evict (committed : Index) (bucket : String) (key : Bytes) (second : UInt64) : Tx → Tx
  | .writing draft => .writing ⟨draft.pending ++ [Record.ofCommand bucket (.delete key) second],
      draft.working.install bucket ((copyOf committed bucket draft).erase key)⟩
  | .reading => .reading
  | .closed => .closed

theorem run_checkOpen (hopen : tx.isClosed = false) : checkOpen.run ⟨tx, env⟩ = (.ok (), ⟨tx, env⟩) := by
  rw [checkOpen, Attempt.run_bind_ok (Attempt.run_get _)]
  simp only [hopen]
  rfl

theorem run_checkWritable (h : tx.isWritable = true) (env : Env) :
    checkWritable.run ⟨tx, env⟩ = (.ok (), ⟨tx, env⟩) := by
  obtain ⟨draft, rfl⟩ := exists_draft h
  rfl

theorem run_now : now.run ⟨tx, env⟩ = (.ok env.second, ⟨tx, env.tick⟩) := rfl

theorem run_store? :
    (store? committed bucket).run ⟨tx, env⟩ = (.ok (tx.visible committed bucket), ⟨tx, env⟩) := rfl

theorem run_checkExpire_live (hopen : tx.isClosed = false)
    (hlive : tx.SeesExpired committed bucket key env.second = false) :
    (checkExpire committed bucket key).run ⟨tx, env⟩ = (.ok false, ⟨tx, env.tick⟩) := by
  rw [SeesExpired] at hlive
  rw [checkExpire, Attempt.run_bind_ok (run_checkOpen hopen), Attempt.run_bind_ok run_now,
    Attempt.run_bind_ok run_store?]
  simp only [hlive]
  rfl

theorem run_requireFresh_live (hopen : tx.isClosed = false)
    (hlive : tx.SeesExpired committed bucket key env.second = false) :
    (requireFresh committed bucket key).run ⟨tx, env⟩ = (.ok (), ⟨tx, env.tick⟩) := by
  rw [requireFresh, Attempt.run_bind_ok (run_checkExpire_live hopen hlive)]
  rfl

/-- A transaction that meets an expired list says so and, if it writes, evicts the list. -/
theorem run_checkExpire_expired (hopen : tx.isClosed = false)
    (hexpired : tx.SeesExpired committed bucket key env.second = true) :
    ∃ trace, (checkExpire committed bucket key).run ⟨tx, env⟩ =
      (.ok true, ⟨tx.evict committed bucket key env.second, ⟨env.clock.tick, trace⟩⟩) := by
  rw [SeesExpired] at hexpired
  rw [checkExpire, Attempt.run_bind_ok (run_checkOpen hopen), Attempt.run_bind_ok run_now,
    Attempt.run_bind_ok run_store?]
  simp only [hexpired, Bool.not_true, Bool.false_eq_true, if_false]
  rw [Attempt.run_bind_ok (Attempt.run_get _)]
  cases tx with
  | reading => exact ⟨env.trace, rfl⟩
  | closed => cases hopen
  | writing draft =>
    have hdelete : (Store.apply (.delete key) env.second).run (copyOf committed bucket draft) =
        (.ok (if (copyOf committed bucket draft).containsKey key ||
          ((copyOf committed bucket draft).expiry? key).isSome then 1 else 0),
          (copyOf committed bucket draft).erase key) := rfl
    have hstage := run_stageAt_writing committed bucket draft env.tick (.delete key) env.second
    rw [hdelete] at hstage
    simp only [isWritable, if_true]
    rw [Attempt.run_bind, Attempt.run_outcome, hstage]
    exact ⟨_, rfl⟩

theorem run_requireFresh_expired (hopen : tx.isClosed = false)
    (hexpired : tx.SeesExpired committed bucket key env.second = true) :
    ∃ trace, (requireFresh committed bucket key).run ⟨tx, env⟩ =
      (.error .keyNotFound, ⟨tx.evict committed bucket key env.second, ⟨env.clock.tick, trace⟩⟩) := by
  obtain ⟨trace, hevict⟩ := run_checkExpire_expired hopen hexpired
  refine ⟨trace, ?_⟩
  rw [requireFresh, Attempt.run_bind_ok hevict]
  rfl

theorem justified_evict {second : UInt64}
    (hexpired : (Tx.writing draft).SeesExpired committed bucket key second = true) :
    (Command.delete key).Justified second (copyOf committed bucket draft) := by
  rw [SeesExpired, Option.any_eq_true] at hexpired
  obtain ⟨store, hstore, hexpired⟩ := hexpired
  rw [copyOf, hstore]
  exact Command.justified_delete hexpired

theorem Grows.evict {second : UInt64} (hexpired : tx.SeesExpired committed bucket key second = true) :
    Grows committed bucket (some key) tx (tx.evict committed bucket key second) := by
  cases tx with
  | reading => exact .refl
  | closed => exact .refl
  | writing draft => exact .single (.stage rfl (justified_evict hexpired) rfl)

end Tx

end DurableLists

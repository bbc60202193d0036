import DurableLists.Proofs.Index.Edits
import DurableLists.Proofs.PlainList
import DurableLists.Proofs.Tx.Reading

/-!
# A live list under change

`Tx.SeesLive` says that a transaction writes and sees a list that has not expired at a second. Then the checks before a
change pass, lookups answer for the list, and a command that puts another list in its place is staged
(`Tx.SeesLive.run_stage`). `Tx.Puts` says how the transaction goes on: one record more, the other list, and everything
else as it was. `Record.Makes` says that a replay of the record does the same to an equal list, wherever it is.
-/

set_option autoImplicit false

namespace DurableLists

/-- Whether a record, as it is staged or as it is sealed, makes one list of another in whatever index it is applied to,
and what it answers. -/
def Record.Makes (bucket : String) (key : Bytes) (items kept : List Bytes) (count : Nat) (r : Record) : Prop :=
  ∀ (txId : UInt64) (status : Status) (index : Index), index.list? bucket key = some items →
    ∃ next, (Index.applyRecord { r with txId, status }).run index = (.ok count, next) ∧
      next.list? bucket key = some kept

/-- The record of a command that puts a list in place of another does so wherever it is applied. -/
theorem Record.makes_ofCommand {bucket : String} {key : Bytes} {items kept : List Bytes} {command : Command}
    {count : Nat} {second : UInt64}
    (hwords : command.indexes.length < 2 ^ 64)
    (happly : ∀ store : Store, store.list? key = some items →
      (Store.apply command second).run store = (.ok count, store.putList key kept)) :
    (Record.ofCommand bucket command second).Makes bucket key items kept count := by
  intro txId status index hlist
  have hsealed : ({ Record.ofCommand bucket command second with txId, status } : Record).command = .ok command :=
    Command.decode_encode hwords
  have hrun := Index.run_applyRecord hsealed index
  have hput := happly _ hlist
  rw [show ({ Record.ofCommand bucket command second with txId, status } : Record).timestamp = second from rfl,
    show ({ Record.ofCommand bucket command second with txId, status } : Record).bucket = bucket from rfl, hput] at hrun
  refine ⟨_, hrun, ?_⟩
  rw [Index.list?, Index.store?_install_self, Option.getD_some, Store.list?_putList, if_pos rfl]

namespace Tx

variable {α : Type} {committed : Index} {bucket : String} {key : Bytes} {items kept : List Bytes} {tx tx' : Tx}
  {command : Command} {second now : UInt64} {env : Env}

/-- Whether a transaction writes, and sees a list that has not expired at a second. -/
structure SeesLive (committed : Index) (bucket : String) (key : Bytes) (items : List Bytes) (second : UInt64)
    (tx : Tx) : Prop where
  writes : tx.isWritable = true
  seen : ∃ store, tx.visible committed bucket = some store ∧ store.list? key = some items ∧
    store.isExpired key second = false

/-- How a transaction goes on that has staged a command which puts a list under a key. -/
structure Puts (committed : Index) (bucket : String) (key : Bytes) (command : Command) (kept : List Bytes)
    (second : UInt64) (tx tx' : Tx) : Prop where
  writes : tx'.isWritable = true
  pending : tx'.pending = tx.pending ++ [Record.ofCommand bucket command second]
  put : ∃ store, tx.visible committed bucket = some store ∧
    tx'.visible committed bucket = some (store.putList key kept)
  elsewhere : ∀ other, other ≠ bucket → tx'.visible committed other = tx.visible committed other

/-- A command that puts a list under a key is staged. -/
theorem run_stage_puts (hwrites : tx.isWritable = true) {store : Store}
    (hstore : tx.visible committed bucket = some store) {count : Nat} (happly : ∀ second : UInt64,
      (Store.apply command second).run store = (.ok count, store.putList key kept)) (env : Env) :
    ∃ w, (stage committed bucket command).run ⟨tx, env⟩ = (.ok count, w) ∧
      tx.Puts committed bucket key command kept env.second w.tx ∧ w.env.clock = env.clock.tick := by
  obtain ⟨draft, rfl⟩ := exists_draft hwrites
  have hstage := run_stageAt_writing committed bucket draft env.tick command env.second
  rw [copyOf_eq hstore, happly env.second] at hstage
  rw [stage, Attempt.run_bind_ok run_now, hstage]
  refine ⟨_, rfl, ⟨rfl, rfl, ⟨store, hstore, visible_install ..⟩, fun other hother => ?_⟩, rfl⟩
  rw [visible, Index.store?_install, if_neg (Ne.symm hother)]
  rfl

/-- A list put in place of another has the expiry of the other. -/
theorem Puts.seesLive (h : tx.Puts committed bucket key command kept second tx')
    (hlive : tx.SeesLive committed bucket key items now) : tx'.SeesLive committed bucket key kept now := by
  obtain ⟨-, store, hstore, -, hfresh⟩ := hlive
  obtain ⟨before, hbefore, hafter⟩ := h.put
  cases hstore.symm.trans hbefore
  refine ⟨h.writes, _, hafter, ?_, hfresh⟩
  rw [Store.list?_putList, if_pos rfl]

namespace SeesLive

theorem run_checkRead (h : tx.SeesLive committed bucket key items env.second) :
    (checkRead committed bucket key).run ⟨tx, env⟩ = (.ok (), ⟨tx, env.tick⟩) := by
  obtain ⟨store, hstore, -, hlive⟩ := h.seen
  exact Tx.run_checkRead (isClosed_of_isWritable h.writes) hstore hlive

theorem run_checkChange (h : tx.SeesLive committed bucket key items env.second) :
    (checkChange committed bucket key).run ⟨tx, env⟩ = (.ok (), ⟨tx, env.tick⟩) := by
  rw [checkChange, Attempt.run_bind_ok (run_checkWritable h.writes env)]
  exact h.run_checkRead

theorem run_look (h : tx.SeesLive committed bucket key items second) {view : Store → Except Error α}
    {answer : Except Error α} (hview : ∀ store : Store, store.list? key = some items → view store = answer)
    (env : Env) : (look committed bucket view).run ⟨tx, env⟩ = (answer, ⟨tx, env⟩) := by
  obtain ⟨store, hstore, hlist, -⟩ := h.seen
  rw [Tx.run_look, hstore]
  simp only [hview store hlist]

theorem run_requireKey (h : tx.SeesLive committed bucket key items second) (env : Env) :
    (requireKey committed bucket key).run ⟨tx, env⟩ = (.ok (), ⟨tx, env⟩) := by
  refine h.run_look (fun store hlist => ?_) env
  rw [Store.containsKey_of_list? hlist]
  rfl

theorem run_requireFresh (h : tx.SeesLive committed bucket key items env.second) :
    (requireFresh committed bucket key).run ⟨tx, env⟩ = (.ok (), ⟨tx, env.tick⟩) := by
  obtain ⟨store, hstore, -, hlive⟩ := h.seen
  have hsees : tx.SeesExpired committed bucket key env.second = false := by
    rw [SeesExpired, hstore]
    exact hlive
  exact run_requireFresh_live (isClosed_of_isWritable h.writes) hsees

theorem run_read (h : tx.SeesLive committed bucket key items env.second) {view : Store → Except Error α}
    {answer : Except Error α} (hview : ∀ store : Store, store.list? key = some items → view store = answer) :
    Attempt.run (do checkRead committed bucket key; look committed bucket view) ⟨tx, env⟩ =
      (answer, ⟨tx, env.tick⟩) := by
  rw [Attempt.run_bind_ok h.run_checkRead]
  exact h.run_look hview env.tick

theorem run_range (h : tx.SeesLive committed bucket key items env.second) (start stop : Int64) :
    (range committed bucket key start stop).run ⟨tx, env⟩ =
      (if items ≠ [] ∧ ListOp.between start stop items = [] then .error .invalidRange
        else .ok (ListOp.between start stop items), ⟨tx, env.tick⟩) :=
  h.run_read fun _ hlist => Store.range_eq_between hlist start stop

/-- A command that puts a list in place of another is staged. -/
theorem run_stage (h : tx.SeesLive committed bucket key items second) {count : Nat}
    (happly : ∀ (store : Store) (second : UInt64), store.list? key = some items →
      (Store.apply command second).run store = (.ok count, store.putList key kept)) (env : Env) :
    ∃ w, (stage committed bucket command).run ⟨tx, env⟩ = (.ok count, w) ∧
      tx.Puts committed bucket key command kept env.second w.tx ∧ w.env.clock = env.clock.tick := by
  obtain ⟨store, hstore, hlist, -⟩ := h.seen
  exact run_stage_puts h.writes hstore (fun second => happly store second hlist) env

/-! ## Trims and removals by position -/

theorem run_trim_refused (h : tx.SeesLive committed bucket key items env.second)
    (hthen : tx.SeesLive committed bucket key items env.tick.second) {start stop : Int64}
    (hnone : items ≠ [] ∧ ListOp.between start stop items = []) :
    (trim committed bucket key start stop).run ⟨tx, env⟩ = (.error .invalidRange, ⟨tx, env.tick.tick⟩) := by
  have hrange := hthen.run_range start stop
  rw [if_pos hnone] at hrange
  rw [trim, Attempt.run_bind_ok h.run_checkChange, Attempt.run_bind_ok (h.run_requireKey env.tick),
    Attempt.run_bind_error hrange]

theorem run_trim (h : tx.SeesLive committed bucket key items env.second)
    (hthen : tx.SeesLive committed bucket key items env.tick.second) {start stop : Int64}
    (hsome : ¬(items ≠ [] ∧ ListOp.between start stop items = [])) :
    ∃ w, (trim committed bucket key start stop).run ⟨tx, env⟩ = (.ok (), w) ∧
      tx.Puts committed bucket key (.trim key start stop) (ListOp.between start stop items) env.tick.tick.second w.tx ∧
      w.env.clock = env.tick.tick.clock.tick := by
  have hrange := hthen.run_range start stop
  rw [if_neg hsome] at hrange
  obtain ⟨w, hstage, hputs⟩ := h.run_stage
    (fun _ second hlist => Store.apply_trim hlist start stop second) env.tick.tick
  refine ⟨w, ?_, hputs⟩
  rw [trim, Attempt.run_bind_ok h.run_checkChange, Attempt.run_bind_ok (h.run_requireKey env.tick),
    Attempt.run_bind_ok hrange, Attempt.run_bind_ok hstage]
  rfl

theorem run_removeAt_none (h : tx.SeesLive committed bucket key items env.second) {indexes : List Int64}
    (hnone : (ListOp.keep (fun i _ => ListOp.isListed indexes i) items).length = 0) :
    (removeAt committed bucket key indexes).run ⟨tx, env⟩ =
      (.ok 0, ⟨tx, ((Env.emit (.nothingAddressed bucket)).run env.tick).2⟩) := by
  have hremovable := h.run_look (fun _ hlist => Store.removableAt_normalize hlist indexes) env.tick
  rw [removeAt, Attempt.run_bind_ok h.run_checkChange]
  simp only [Attempt.run_bind_ok hremovable, hnone, if_true]
  rfl

theorem run_removeAt_some (h : tx.SeesLive committed bucket key items env.second) {indexes : List Int64}
    (hsome : (ListOp.keep (fun i _ => ListOp.isListed indexes i) items).length ≠ 0) :
    ∃ w, (removeAt committed bucket key indexes).run ⟨tx, env⟩ =
        (.ok (ListOp.keep (fun i _ => ListOp.isListed indexes i) items).length, w) ∧
      tx.Puts committed bucket key (.removeAt key (IndexSet.normalize indexes))
        (ListOp.keep (fun i _ => !ListOp.isListed indexes i) items) env.tick.second w.tx := by
  have hremovable := h.run_look (fun _ hlist => Store.removableAt_normalize hlist indexes) env.tick
  obtain ⟨w, hstage, hputs, -⟩ := h.run_stage
    (fun _ second hlist => Store.apply_removeAt hlist indexes second) env.tick
  refine ⟨w, ?_, hputs⟩
  rw [removeAt, Attempt.run_bind_ok h.run_checkChange]
  simp only [Attempt.run_bind_ok hremovable, hsome, if_false]
  rw [Attempt.run_bind_ok hstage]
  rfl

end SeesLive

/-! ## One list -/

/-- An index with one list. -/
def listIndex (items : List Bytes) : Index := (∅ : Index).install "b" ((∅ : Store).putList [107] items)

theorem seesLive_listIndex (items : List Bytes) (second : UInt64) :
    (Tx.begin true).SeesLive (listIndex items) "b" [107] items second := by
  refine ⟨rfl, (∅ : Store).putList [107] items, ?_, ?_, ?_⟩
  · exact Index.store?_install_self ..
  · rw [Store.list?_putList, if_pos rfl]
  · exact Store.isExpired_of_expiry?_none (by rfl) second

end Tx

end DurableLists

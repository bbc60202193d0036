import DurableLists.Tx.Request
import DurableLists.Proofs.Command.Justified
import DurableLists.Proofs.Command.Payload
import DurableLists.Proofs.Frame.Exact

/-!
# Drafts are faithful

A draft is faithful if its records are justified, one after another, from the committed index on, and if
replaying them gives what installing its copies gives. Staging a justified command keeps a draft faithful: the
command is applied to the copy and, by the replay, to the store that the copy stands for, and what a record
holds is the command (`Draft.Faithful.stage`).

The length of a value is written into the value itself where the command is a set of positions, and it is read
back if it is below `2 ^ 64`, as the length of every octet string in memory is (`Record.Sized`).
-/

set_option autoImplicit false

namespace DurableLists

/-! ## Records of commands -/

/-- Whether the value of a record is one that memory can hold. -/
def Record.Sized (r : Record) : Prop := r.value.length < 2 ^ 64

theorem Frame.Fits.sized {r : Record} (h : Frame.Fits r) : r.Sized := by
  have hsize : UInt32.size < 2 ^ 64 := by decide
  unfold Frame.Fits at h
  unfold Record.Sized
  omega

/-- The record of a command holds the command. -/
theorem Record.command_ofCommand {bucket : String} {command : Command} {timestamp : UInt64}
    (h : (ofCommand bucket command timestamp).Sized) :
    (ofCommand bucket command timestamp).command = .ok command :=
  Command.decode_encode (Nat.lt_of_le_of_lt command.length_indexes_le h)

/-! ## Faithful drafts -/

/-- The records of a draft, if memory can hold them, are justified, and replaying them gives what installing
its copies gives. -/
def Draft.Faithful (committed : Index) (draft : Draft) : Prop :=
  (∀ r ∈ draft.pending, r.Sized) → committed.Justifies draft.pending ∧
    (Index.replay draft.pending).run committed = (.ok (), Database.installAll committed draft.working)

namespace Draft.Faithful

variable {committed : Index} {bucket : String} {draft : Draft}

theorem empty (committed : Index) : Draft.empty.Faithful committed := by
  intro _
  have hcopies : Database.installAll committed Draft.empty.working = committed :=
    Database.installAll_empty committed
  rw [hcopies]
  exact ⟨trivial, rfl⟩

/-- What a transaction sees in a bucket is what its copies, once installed, would show. -/
theorem visible_eq (committed : Index) (bucket : String) (draft : Draft) :
    (Tx.writing draft).visible committed bucket =
      (Database.installAll committed draft.working).store? bucket :=
  (Database.store?_installAll committed draft.working bucket).symm

theorem stage (h : draft.Faithful committed) {command : Command} {timestamp : UInt64} {affected : Nat}
    {copy : Store}
    (hjustified : command.Justified timestamp (((Tx.writing draft).visible committed bucket).getD ∅))
    (hrun : (Store.apply command timestamp).run
      (((Tx.writing draft).visible committed bucket).getD ∅) = (.ok affected, copy)) :
    Draft.Faithful committed ⟨draft.pending ++ [Record.ofCommand bucket command timestamp],
      draft.working.install bucket copy⟩ := by
  intro hsized
  obtain ⟨hbefore, hreplay⟩ := h fun r hr => hsized r (List.mem_append_left _ hr)
  have hcommand : (Record.ofCommand bucket command timestamp).command = .ok command :=
    Record.command_ofCommand (hsized _ (by simp))
  rw [visible_eq] at hjustified hrun
  have hrecord := Index.run_applyRecord hcommand (Database.installAll committed draft.working)
  have hstore : (Store.apply command timestamp).run
      (((Database.installAll committed draft.working).store?
        (Record.ofCommand bucket command timestamp).bucket).getD ∅) = (.ok affected, copy) := hrun
  rw [show (Record.ofCommand bucket command timestamp).timestamp = timestamp from rfl, hstore] at hrecord
  rw [Database.installAll_install]
  refine ⟨(Index.Justifies.append_iff hreplay).mpr ⟨hbefore, ⟨command, hcommand, hjustified⟩, trivial⟩, ?_⟩
  exact Index.run_replay_concat hreplay hrecord

end Draft.Faithful

namespace Tx

/-- The draft of a transaction, if it has one, is faithful. -/
def Sound (committed : Index) : Tx → Prop
  | .writing draft => draft.Faithful committed
  | .reading | .closed => True

theorem sound_begin (committed : Index) (writable : Bool) : (begin writable).Sound committed := by
  cases writable with
  | false => trivial
  | true => exact .empty committed

theorem sound_of_not_writable {tx : Tx} (h : tx.isWritable = false) (committed : Index) :
    tx.Sound committed := by
  cases tx with
  | writing draft => cases h
  | reading => trivial
  | closed => trivial

/-- What a sound transaction sees is what replaying its records makes of the committed index. -/
theorem Sound.replay_pending {committed : Index} {tx : Tx} (h : tx.Sound committed)
    (hsized : ∀ r ∈ tx.pending, r.Sized) :
    ∃ index, (Index.replay tx.pending).run committed = (.ok (), index) ∧
      ∀ bucket, tx.visible committed bucket = index.store? bucket := by
  cases tx with
  | reading => exact ⟨committed, rfl, fun _ => rfl⟩
  | closed => exact ⟨committed, rfl, fun _ => rfl⟩
  | writing draft => exact ⟨_, (h hsized).2, fun bucket => Draft.Faithful.visible_eq committed bucket draft⟩

theorem Sound.visible_of_idle {committed : Index} {tx : Tx} (h : tx.Sound committed) (hidle : tx.pending = [])
    (bucket : String) : tx.visible committed bucket = committed.store? bucket := by
  have hsized : ∀ r ∈ tx.pending, r.Sized := by
    rw [hidle]
    intro r hr
    cases hr
  obtain ⟨index, hreplay, hvisible⟩ := h.replay_pending hsized
  rw [hidle] at hreplay
  cases hreplay
  exact hvisible bucket

/-! ## One staged command -/

section

variable (committed : Index) (bucket : String) (draft : Draft) (env : Env)

def copyOf : Store := ((Tx.writing draft).visible committed bucket).getD ∅

variable {committed bucket draft} in
theorem copyOf_eq {store : Store} (h : (Tx.writing draft).visible committed bucket = some store) :
    copyOf committed bucket draft = store := by
  rw [copyOf, h]
  rfl

theorem visible_install (pending : List Record) (working : Index) (copy : Store) :
    (Tx.writing ⟨pending, working.install bucket copy⟩).visible committed bucket = some copy := by
  rw [visible, Index.store?_install_self]
  rfl

theorem run_onCopy_writing {α : Type} (call : Attempt Store α) :
    (onCopy committed bucket call).run ⟨.writing draft, env⟩ =
      ((call.run (copyOf committed bucket draft)).1,
        ⟨.writing ⟨draft.pending, draft.working.install bucket
          (call.run (copyOf committed bucket draft)).2⟩, env⟩) := by
  have hdraft : Tx.draft.run (⟨.writing draft, env⟩ : Work) = (.ok draft, ⟨.writing draft, env⟩) := rfl
  have hstore : (store? committed bucket).run ⟨.writing draft, env⟩ =
      (.ok ((Tx.writing draft).visible committed bucket), ⟨.writing draft, env⟩) := rfl
  rw [onCopy, Attempt.run_bind_ok hdraft, Attempt.run_bind_ok hstore, copyOf]
  cases hcall : call.run (((Tx.writing draft).visible committed bucket).getD ∅) with
  | mk outcome copy =>
    simp only [hcall]
    rfl

theorem run_stageAt_writing (command : Command) (timestamp : UInt64) :
    (stageAt committed bucket command timestamp).run ⟨.writing draft, env⟩ =
      match (Store.apply command timestamp).run (copyOf committed bucket draft) with
      | (.ok affected, copy) => (.ok affected,
          ⟨.writing ⟨draft.pending ++ [Record.ofCommand bucket command timestamp],
            draft.working.install bucket copy⟩,
          { env with trace := .staged command.kind bucket affected :: env.trace }⟩)
      | (.error cause, copy) => (.error cause,
          ⟨.writing { draft with working := draft.working.install bucket copy }, env⟩) := by
  have hcheck : checkWritable.run (⟨.writing draft, env⟩ : Work) = (.ok (), ⟨.writing draft, env⟩) := rfl
  rw [stageAt, Attempt.run_bind_ok hcheck, Attempt.run_bind, run_onCopy_writing]
  rcases (Store.apply command timestamp).run (copyOf committed bucket draft) with
    ⟨_ | affected, copy⟩ <;> rfl

/-- An expiry that has been put into the copy already makes no difference to the command that is staged to
put it there. -/
theorem run_stageAt_expire (key : Bytes) (ttl : UInt32) (second : UInt64) :
    (stageAt committed bucket (.expire key ttl) second).run ⟨.writing ⟨draft.pending,
      draft.working.install bucket ((copyOf committed bucket draft).putExpiry key ⟨ttl, second⟩)⟩, env⟩ =
      (stageAt committed bucket (.expire key ttl) second).run ⟨.writing draft, env⟩ := by
  have hput (store : Store) : (Store.apply (.expire key ttl) second).run store =
      (.ok 1, store.putExpiry key ⟨ttl, second⟩) := rfl
  have htwice (store : Store) : (store.putExpiry key ⟨ttl, second⟩).putExpiry key ⟨ttl, second⟩ =
      store.putExpiry key ⟨ttl, second⟩ := by
    simp only [Store.putExpiry]
    congr 1
    apply Std.ExtTreeMap.ext_getElem?
    intro other
    simp only [Std.ExtTreeMap.getElem?_insert]
    split <;> rfl
  rw [run_stageAt_writing, run_stageAt_writing, hput, hput]
  simp only [copyOf, visible, Index.store?_install_self, Option.some_or, Option.getD_some, htwice,
    Index.install_install]

end

end Tx

end DurableLists

import DurableLists.Proofs.Tx.Live

/-!
# A list that a transaction changes

`Tx.Shows` says that a transaction writes and sees a list under a key that has no expiry. Then every operation on the
list answers what it answers on the plain list, and the transaction shows afterwards what the operation makes of the
plain list (`ListOp.run_perform`). What the transaction stages about other keys, or in other buckets, leaves the list
as it is (`Tx.Shows.of_grows`, by `Tx.Grows.apart`).
-/

set_option autoImplicit false

namespace DurableLists

namespace Tx

variable {α : Type} {committed : Index} {bucket : String} {key : Bytes} {items : List Bytes} {tx tx' : Tx}

/-- Whether a transaction writes, and sees a list under a key that has no expiry. -/
structure Shows (committed : Index) (bucket : String) (key : Bytes) (items : List Bytes) (tx : Tx) : Prop where
  writes : tx.isWritable = true
  seen : ∃ store, tx.visible committed bucket = some store ∧ store.list? key = some items ∧
    store.expiry? key = none

/-! ## Checks and lookups -/

/-- A list put under a key without an expiry is shown. -/
theorem Puts.shows {command : Command} {kept : List Bytes} {second : UInt64}
    (h : tx.Puts committed bucket key command kept second tx') {store : Store}
    (hstore : tx.visible committed bucket = some store) (hexpiry : store.expiry? key = none) :
    tx'.Shows committed bucket key kept := by
  obtain ⟨before, hbefore, hafter⟩ := h.put
  cases hstore.symm.trans hbefore
  refine ⟨h.writes, _, hafter, ?_, hexpiry⟩
  rw [Store.list?_putList, if_pos rfl]

/-- A command that puts a list under a key without an expiry is staged, and the list is shown. -/
theorem run_stage_put (hwrites : tx.isWritable = true) {store : Store}
    (hstore : tx.visible committed bucket = some store) (hexpiry : store.expiry? key = none) {command : Command}
    {count : Nat} {kept : List Bytes} (happly : ∀ second : UInt64,
      (Store.apply command second).run store = (.ok count, store.putList key kept)) (env : Env) :
    ∃ w, (stage committed bucket command).run ⟨tx, env⟩ = (.ok count, w) ∧
      w.tx.Shows committed bucket key kept := by
  obtain ⟨w, hstage, hputs, -⟩ := run_stage_puts hwrites hstore happly env
  exact ⟨w, hstage, hputs.shows hstore hexpiry⟩

/-- What is staged about another key, or in another bucket, leaves the list and the expiry under a key. -/
theorem Grows.apart {other : String} {key? : Option Bytes} (hgrows : Grows committed other key? tx tx')
    (hapart : other ≠ bucket ∨ key? ≠ some key) {store : Store} (hstore : tx.visible committed bucket = some store) :
    ∃ store', tx'.visible committed bucket = some store' ∧ store'.list? key = store.list? key ∧
      store'.expiry? key = store.expiry? key := by
  induction hgrows with
  | refl => exact ⟨store, hstore, rfl, rfl⟩
  | tail _ hstep ih =>
    obtain ⟨middle, hmiddle, hlist, hexpiry⟩ := ih
    cases hstep with
    | @stage draft command timestamp count copy about justified applied =>
      by_cases hother : other = bucket
      · subst hother
        have hkey : command.key ≠ key := fun hkey => hapart.resolve_left (fun hne => hne rfl) (by rw [about, hkey])
        rw [copyOf_eq hmiddle] at applied
        obtain ⟨hlist', hexpiry'⟩ := Store.apart_of_apply applied hkey
        exact ⟨copy, visible_install .., hlist'.trans hlist, hexpiry'.trans hexpiry⟩
      · refine ⟨middle, ?_, hlist, hexpiry⟩
        rw [visible, Index.store?_install, if_neg hother]
        exact hmiddle

namespace Shows

/-- A list without an expiry is live at every second. -/
theorem seesLive (h : tx.Shows committed bucket key items) (second : UInt64) :
    tx.SeesLive committed bucket key items second := by
  obtain ⟨hwrites, store, hstore, hlist, hexpiry⟩ := h
  exact ⟨hwrites, store, hstore, hlist, Store.isExpired_of_expiry?_none hexpiry second⟩

theorem of_puts {command : Command} {kept : List Bytes} {second : UInt64} (h : tx.Shows committed bucket key items)
    (hputs : tx.Puts committed bucket key command kept second tx') : tx'.Shows committed bucket key kept := by
  obtain ⟨-, store, hstore, -, hexpiry⟩ := h
  exact hputs.shows hstore hexpiry

/-! ## Staging -/

/-- A command that puts a list under the key is staged, and the list is shown. -/
theorem run_stage (h : tx.Shows committed bucket key items) {command : Command} {count : Nat} {kept : List Bytes}
    (happly : ∀ (store : Store) (second : UInt64), store.list? key = some items →
      (Store.apply command second).run store = (.ok count, store.putList key kept)) (env : Env) :
    ∃ w, (stage committed bucket command).run ⟨tx, env⟩ = (.ok count, w) ∧
      w.tx.Shows committed bucket key kept := by
  obtain ⟨w, hstage, hputs, -⟩ := (h.seesLive env.second).run_stage happly env
  exact ⟨w, hstage, h.of_puts hputs⟩

/-! ## Operations -/

theorem run_pushEach (h : tx.Shows committed bucket key items) (side : Side) (values : List Bytes) (env : Env) :
    ∃ w, (pushEach committed side bucket key values).run ⟨tx, env⟩ = (.ok (), w) ∧
      w.tx.Shows committed bucket key (values.foldl (fun items value => side.insert value items) items) := by
  induction values generalizing tx items env with
  | nil => exact ⟨⟨tx, env⟩, rfl, h⟩
  | cons value values ih =>
    have happly (store : Store) (second : UInt64) (hlist : store.list? key = some items) :
        (Store.apply (.push side key value) second).run store =
          (.ok 1, store.putList key (side.insert value items)) := Store.apply_push hlist side value second
    obtain ⟨w, hstage, hshows⟩ := h.run_stage happly env.tick
    obtain ⟨w', hrest, hshows'⟩ := ih hshows w.env
    refine ⟨w', ?_, hshows'⟩
    rw [pushEach, Attempt.run_bind_ok (h.seesLive env.second).run_requireFresh, Attempt.run_bind_ok hstage]
    exact hrest

/-- The values of a push end up at their end one after another, the last one outermost. -/
theorem run_push (h : tx.Shows committed bucket key items) (hkey : containsSeparator key = false) (side : Side)
    (values : List Bytes) (env : Env) :
    ∃ w, (push committed side bucket key values).run ⟨tx, env⟩ = (.ok (), w) ∧
      w.tx.Shows committed bucket key (((ListOp.push side values).onPlain items).2) := by
  obtain ⟨w, hpush, hshows⟩ := h.run_pushEach side values env
  rw [← ListOp.onPlain_push] at hshows
  refine ⟨w, ?_, hshows⟩
  rw [push, Attempt.run_bind_ok (run_checkWritable h.writes env)]
  simp only [hkey, Bool.false_eq_true, if_false]
  exact hpush

theorem run_peek (h : tx.Shows committed bucket key items) (side : Side) (env : Env) :
    (peek committed side bucket key).run ⟨tx, env⟩ =
      (match side.peek? items with
        | none => .error .emptyList
        | some value => .ok value, ⟨tx, env.tick⟩) :=
  (h.seesLive env.second).run_read fun _ hlist => Store.peek_of_list? hlist side

theorem run_pop_none (h : tx.Shows committed bucket key items) {side : Side} (hpeek : side.peek? items = none)
    (env : Env) : (pop committed side bucket key).run ⟨tx, env⟩ = (.error .emptyList, ⟨tx, env.tick⟩) := by
  have hnone := h.run_peek side env
  simp only [hpeek] at hnone
  rw [pop, Attempt.run_bind_ok (run_checkWritable h.writes env), Attempt.run_bind_error hnone]

theorem run_pop_some (h : tx.Shows committed bucket key items) {side : Side} {value : Bytes}
    (hpeek : side.peek? items = some value) (env : Env) :
    ∃ w, (pop committed side bucket key).run ⟨tx, env⟩ = (.ok value, w) ∧
      w.tx.Shows committed bucket key (side.rest items) := by
  have hfound := h.run_peek side env
  simp only [hpeek] at hfound
  obtain ⟨w, hstage, hshows⟩ := h.run_stage
    (fun _ second hlist => Store.apply_pop hlist hpeek value second) env.tick
  refine ⟨w, ?_, hshows⟩
  rw [pop, Attempt.run_bind_ok (run_checkWritable h.writes env), Attempt.run_bind_ok hfound,
    Attempt.run_bind_ok hstage]
  rfl

theorem run_remove_beyond (h : tx.Shows committed bucket key items) {count : Int64}
    (hcount : items.length < count.toInt.natAbs) (value : Bytes) (env : Env) :
    (remove committed bucket key count value).run ⟨tx, env⟩ = (.error .countOutOfRange, ⟨tx, env.tick⟩) := by
  have hsize := (h.seesLive env.second).run_look (fun _ hlist => Store.length_of_list? hlist) env.tick
  rw [remove, Attempt.run_bind_ok (h.seesLive env.second).run_checkChange, Attempt.run_bind_ok hsize]
  simp only [hcount, if_true]
  rfl

theorem run_remove (h : tx.Shows committed bucket key items) {count : Int64}
    (hcount : ¬items.length < count.toInt.natAbs) (value : Bytes) (env : Env) :
    ∃ w, (remove committed bucket key count value).run ⟨tx, env⟩ =
        (.ok (items.length - (ListOp.removed count value items).length), w) ∧
      w.tx.Shows committed bucket key (ListOp.removed count value items) := by
  have hsize := (h.seesLive env.second).run_look (fun _ hlist => Store.length_of_list? hlist) env.tick
  obtain ⟨w, hstage, hshows⟩ := h.run_stage
    (fun _ second hlist => Store.apply_remove hlist count value second) env.tick
  refine ⟨w, ?_, hshows⟩
  rw [remove, Attempt.run_bind_ok (h.seesLive env.second).run_checkChange, Attempt.run_bind_ok hsize]
  simp only [hcount, if_false]
  exact hstage

theorem run_replace_beyond (h : tx.Shows committed bucket key items) {index : Int64}
    (hindex : ¬(0 ≤ index.toInt ∧ index.toInt < items.length)) (value : Bytes) (env : Env) :
    (replace committed bucket key index value).run ⟨tx, env⟩ = (.error .indexOutOfRange, ⟨tx, env.tick⟩) := by
  have hsize := (h.seesLive env.second).run_look (fun _ hlist => Store.length_of_list? hlist) env.tick
  have houtside : index.toInt < 0 ∨ items.length ≤ index.toInt := by omega
  rw [replace, Attempt.run_bind_ok (h.seesLive env.second).run_checkChange, Attempt.run_bind_ok ((h.seesLive env.second).run_requireKey env.tick),
    Attempt.run_bind_ok hsize]
  simp only [houtside, if_true]
  rfl

theorem run_replace (h : tx.Shows committed bucket key items) {index : Int64}
    (hindex : 0 ≤ index.toInt ∧ index.toInt < items.length) (value : Bytes) (env : Env) :
    ∃ w, (replace committed bucket key index value).run ⟨tx, env⟩ = (.ok (), w) ∧
      w.tx.Shows committed bucket key (items.set index.toInt.toNat value) := by
  have hsize := (h.seesLive env.second).run_look (fun _ hlist => Store.length_of_list? hlist) env.tick
  have hinside : ¬(index.toInt < 0 ∨ items.length ≤ index.toInt) := by omega
  obtain ⟨w, hstage, hshows⟩ := h.run_stage
    (fun _ second hlist => Store.apply_replace hlist hindex value second) env.tick
  refine ⟨w, ?_, hshows⟩
  rw [replace, Attempt.run_bind_ok (h.seesLive env.second).run_checkChange, Attempt.run_bind_ok ((h.seesLive env.second).run_requireKey env.tick),
    Attempt.run_bind_ok hsize]
  simp only [hinside, if_false]
  rw [Attempt.run_bind_ok hstage]
  rfl

theorem run_trim (h : tx.Shows committed bucket key items) {start stop : Int64}
    (hsome : ¬(items ≠ [] ∧ ListOp.between start stop items = [])) (env : Env) :
    ∃ w, (trim committed bucket key start stop).run ⟨tx, env⟩ = (.ok (), w) ∧
      w.tx.Shows committed bucket key (ListOp.between start stop items) := by
  obtain ⟨w, htrim, hputs, -⟩ := (h.seesLive env.second).run_trim (h.seesLive env.tick.second) hsome
  exact ⟨w, htrim, h.of_puts hputs⟩

theorem run_removeAt (h : tx.Shows committed bucket key items) (indexes : List Int64) (env : Env) :
    ∃ w, (removeAt committed bucket key indexes).run ⟨tx, env⟩ =
        (.ok (ListOp.keep (fun i _ => ListOp.isListed indexes i) items).length, w) ∧
      w.tx.Shows committed bucket key (ListOp.keep (fun i _ => !ListOp.isListed indexes i) items) := by
  have hlive := h.seesLive env.second
  by_cases hnone : (ListOp.keep (fun i _ => ListOp.isListed indexes i) items).length = 0
  · -- Nothing is staged, and nothing is to be removed.
    have hall := ListOp.keep_not_of_keep_eq_nil (List.length_eq_zero_iff.mp hnone)
    rw [hall, hnone]
    exact ⟨_, hlive.run_removeAt_none hnone, h⟩
  · obtain ⟨w, hremove, hputs⟩ := hlive.run_removeAt_some hnone
    exact ⟨w, hremove, h.of_puts hputs⟩

/-- What another request stages, about another key or in another bucket, leaves the list as it is. -/
theorem of_grows {other : String} {key? : Option Bytes} (h : tx.Shows committed bucket key items)
    (hapart : other ≠ bucket ∨ key? ≠ some key) (hgrows : Grows committed other key? tx tx') :
    tx'.Shows committed bucket key items := by
  obtain ⟨hwrites, store, hstore, hlist, hexpiry⟩ := h
  obtain ⟨store', hstore', hlist', hexpiry'⟩ := hgrows.apart hapart hstore
  exact ⟨hgrows.isWritable_eq.trans hwrites, store', hstore', hlist'.trans hlist, hexpiry'.trans hexpiry⟩

end Shows

end Tx

/-! ## Operations -/

/-- On a list that a transaction shows, an operation answers what it answers on the plain list, and the transaction
shows what the operation makes of the plain list. -/
theorem ListOp.run_perform {committed : Index} {bucket : String} {key : Bytes} {items : List Bytes} {tx : Tx}
    (op : ListOp) (hkey : containsSeparator key = false) (h : tx.Shows committed bucket key items) (env : Env) :
    ∃ w, ((op.request key).perform committed bucket).run ⟨tx, env⟩ = ((op.onPlain items).1, w) ∧
      w.tx.Shows committed bucket key (op.onPlain items).2 := by
  cases op with
  | push side values =>
    obtain ⟨w, hpush, hshows⟩ := h.run_push hkey side values env
    refine ⟨w, ?_, hshows⟩
    rw [request, Request.perform, Attempt.run_bind_ok hpush]
    cases side <;> rfl
  | pop side =>
    rw [onPlain]
    cases hpeek : side.peek? items with
    | none =>
      refine ⟨⟨tx, env.tick⟩, ?_, h⟩
      rw [request, Request.perform, Attempt.run_bind_error (h.run_pop_none hpeek env)]
    | some value =>
      obtain ⟨w, hpop, hshows⟩ := h.run_pop_some hpeek env
      exact ⟨w, Attempt.run_bind_pure hpop _, hshows⟩
  | peek side =>
    have hread := h.run_peek side env
    rw [onPlain]
    cases hpeek : side.peek? items with
    | none =>
      simp only [hpeek] at hread
      refine ⟨⟨tx, env.tick⟩, ?_, h⟩
      rw [request, Request.perform, Attempt.run_bind_error hread]
    | some value =>
      simp only [hpeek] at hread
      exact ⟨⟨tx, env.tick⟩, Attempt.run_bind_pure hread _, h⟩
  | length =>
    have hread := (h.seesLive env.second).run_read fun _ hlist => Store.length_of_list? hlist
    refine ⟨⟨tx, env.tick⟩, ?_, h⟩
    rw [request, Request.perform, Tx.length, Attempt.run_bind_ok hread]
    rfl
  | range start stop =>
    have hread := (h.seesLive env.second).run_range start stop
    rw [onPlain]
    split at hread <;> rename_i hnone
    · rw [if_pos hnone]
      refine ⟨⟨tx, env.tick⟩, ?_, h⟩
      rw [request, Request.perform, Attempt.run_bind_error hread]
    · rw [if_neg hnone]
      exact ⟨⟨tx, env.tick⟩, Attempt.run_bind_pure hread _, h⟩
  | remove count value =>
    rw [onPlain]
    split <;> rename_i hcount
    · refine ⟨⟨tx, env.tick⟩, ?_, h⟩
      rw [request, Request.perform, Attempt.run_bind_error (h.run_remove_beyond hcount value env)]
    · obtain ⟨w, hremove, hshows⟩ := h.run_remove hcount value env
      exact ⟨w, Attempt.run_bind_pure hremove _, hshows⟩
  | replace index value =>
    rw [onPlain]
    split <;> rename_i hindex
    · obtain ⟨w, hreplace, hshows⟩ := h.run_replace hindex value env
      exact ⟨w, Attempt.run_bind_pure hreplace _, hshows⟩
    · refine ⟨⟨tx, env.tick⟩, ?_, h⟩
      rw [request, Request.perform, Attempt.run_bind_error (h.run_replace_beyond hindex value env)]
  | trim start stop =>
    rw [onPlain]
    split <;> rename_i hnone
    · refine ⟨⟨tx, env.tick.tick⟩, ?_, h⟩
      rw [request, Request.perform, Attempt.run_bind_error ((h.seesLive _).run_trim_refused (h.seesLive _) hnone)]
    · obtain ⟨w, htrim, hshows⟩ := h.run_trim hnone env
      exact ⟨w, Attempt.run_bind_pure htrim _, hshows⟩
  | removeAt indexes =>
    obtain ⟨w, hremove, hshows⟩ := h.run_removeAt indexes env
    exact ⟨w, Attempt.run_bind_pure hremove _, hshows⟩

end DurableLists

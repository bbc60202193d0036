import DurableLists.Proofs.PlainList
import DurableLists.Proofs.Tx.Requests

/-!
# What a read shows

The requests that bring elements of a list, or count them, all look at it behind the expiry check. So one that
answers has met the list live, and shows what the transaction sees in it (`Request.shown_of_perform`). A list that
the transaction sees live is shown (`Tx.run_range`), and a list that has expired is shown again with a new expiry,
which is set behind no such check (`Request.shown_of_expire`).
-/

set_option autoImplicit false

namespace DurableLists

/-- Whether a request brings elements of a list, or their number. -/
def Request.Reads (key : Bytes) : Request → Prop
  | .pop _ other | .peek _ other | .length other | .range other _ _ => other = key
  | .push .. | .remove .. | .replace .. | .trim .. | .removeAt .. | .expire .. | .checkExpire _ | .ttl _
  | .expiry _ | .keys .. => False

/-- Whether a reply shows no elements but given ones, each as often as it is given. -/
def Reply.Within (items : List Bytes) : Reply → Prop
  | .value shown => shown ∈ items
  | .values shown => shown.Subperm items
  | .count size => size ≤ items.length
  | .done | .flag _ | .seconds _ | .expiry _ | .records _ => True

theorem Reply.Within.mono {items more : List Bytes} {reply : Reply} (h : reply.Within items)
    (hmore : items.Subperm more) : reply.Within more := by
  cases reply with
  | value shown => exact hmore.subset h
  | values shown => exact List.Subperm.trans h hmore
  | count size => exact Nat.le_trans h hmore.length_le
  | _ => trivial

/-! ## Views of a store -/

namespace Store

variable {s : Store} {key : Bytes}

theorem mem_of_peek {side : Side} {value : Bytes} (h : s.peek side key = .ok value) :
    value ∈ (s.list? key).getD [] := by
  have hpop : (Command.pop side key value).Justified 0 s := Command.justified_pop h
  obtain ⟨rest, hlist⟩ := hpop
  rw [hlist]
  cases side with
  | head => exact List.mem_cons_self
  | tail => exact List.mem_append_right rest (List.mem_singleton_self value)

theorem eq_of_length {size : Nat} (h : s.length key = .ok size) : size = ((s.list? key).getD []).length := by
  obtain ⟨items, hlist, rfl⟩ := Command.list?_of_length h
  rw [hlist]
  rfl

theorem subperm_of_range {start stop : Int64} {values : List Bytes} (h : s.range key start stop = .ok values) :
    values.Subperm ((s.list? key).getD []) := by
  rw [Store.range, Store.list] at h
  cases hlist : s.list? key with
  | none =>
    rw [hlist] at h
    cases h
  | some items =>
    simp only [hlist, bind, Except.bind] at h
    split at h
    · cases h
      exact List.nil_subperm
    · cases hspan : Span.resolve start stop items.length with
      | error e => simp [hspan] at h
      | ok span =>
        simp only [hspan, pure, Except.pure, Except.ok.injEq] at h
        rw [← h]
        exact ((List.drop_sublist _ _).trans (List.take_sublist _ _)).subperm

/-- From the head to the tail a range is the whole list. -/
theorem range_all {items : List Bytes} (h : s.list? key = some items) : s.range key 0 (-1) = .ok items := by
  have hshown : ¬(items ≠ [] ∧ items = []) := fun hnone => hnone.1 hnone.2
  rw [range_eq_between h, ListOp.between_all, if_neg hshown]

end Store

/-! ## Looking behind the expiry check -/

namespace Tx

variable {α : Type} {committed : Index} {bucket : String} {key : Bytes} {tx : Tx} {env : Env} {w : Work}
  {store : Store}

/-- The elements that a transaction sees in a list. -/
def items (committed : Index) (bucket : String) (key : Bytes) (tx : Tx) : List Bytes :=
  (((tx.visible committed bucket).getD ∅).list? key).getD []

theorem run_requireBucket (hopen : tx.isClosed = false) (hstore : tx.visible committed bucket = some store) :
    (requireBucket committed bucket).run ⟨tx, env⟩ = (.ok (), ⟨tx, env⟩) := by
  rw [requireBucket, Attempt.run_bind_ok (run_checkOpen hopen), Attempt.run_bind_ok run_store?, hstore]
  rfl

theorem run_requireBucket_missing (hopen : tx.isClosed = false) (hmissing : tx.visible committed bucket = none) :
    (requireBucket committed bucket).run ⟨tx, env⟩ = (.error .bucketNotFound, ⟨tx, env⟩) := by
  rw [requireBucket, Attempt.run_bind_ok (run_checkOpen hopen), Attempt.run_bind_ok run_store?, hmissing]
  rfl

theorem run_checkRead (hopen : tx.isClosed = false) (hstore : tx.visible committed bucket = some store)
    (hlive : store.isExpired key env.second = false) :
    (checkRead committed bucket key).run ⟨tx, env⟩ = (.ok (), ⟨tx, env.tick⟩) := by
  have hsees : tx.SeesExpired committed bucket key env.second = false := by
    rw [SeesExpired, hstore]
    exact hlive
  rw [checkRead, Attempt.run_bind_ok (run_requireBucket hopen hstore)]
  exact run_requireFresh_live hopen hsees

theorem of_run_checkOpen {w' : Work} (h : checkOpen.run w = (.ok (), w')) : w.tx.isClosed = false ∧ w' = w := by
  rw [checkOpen, Attempt.run_bind_ok (Attempt.run_get w)] at h
  split at h
  · cases h
  · rename_i hopen
    cases h
    exact ⟨Bool.eq_false_iff.mpr hopen, rfl⟩

theorem of_run_checkWritable {w' : Work} (h : checkWritable.run w = (.ok (), w')) : w' = w := by
  obtain ⟨_, middle, hopen, hrest⟩ := Attempt.of_run_bind h
  obtain ⟨-, rfl⟩ := of_run_checkOpen hopen
  rw [Attempt.run_bind_ok (Attempt.run_get _)] at hrest
  split at hrest
  · cases hrest
  · cases hrest
    rfl

theorem of_run_requireBucket {w' : Work} (h : (requireBucket committed bucket).run w = (.ok (), w')) :
    w.tx.isClosed = false ∧ w' = w ∧ ∃ store, w.tx.visible committed bucket = some store := by
  obtain ⟨_, w₁, hcheck, hrest⟩ := Attempt.of_run_bind h
  obtain ⟨hopen, rfl⟩ := of_run_checkOpen hcheck
  have hfound : (store? committed bucket).run w₁ = (.ok (w₁.tx.visible committed bucket), w₁) := rfl
  rw [Attempt.run_bind_ok hfound] at hrest
  cases hstore : w₁.tx.visible committed bucket with
  | none =>
    rw [hstore] at hrest
    cases hrest
  | some store =>
    rw [hstore] at hrest
    cases hrest
    exact ⟨hopen, rfl, store, rfl⟩

/-- A read that passes its checks has met the list live. -/
theorem of_run_checkRead (h : (checkRead committed bucket key).run ⟨tx, env⟩ = (.ok (), w)) :
    tx.isClosed = false ∧ tx.SeesExpired committed bucket key env.second = false ∧ w = ⟨tx, env.tick⟩ := by
  obtain ⟨_, middle, hbucket, hfresh⟩ := Attempt.of_run_bind h
  obtain ⟨hopen, rfl, -⟩ := of_run_requireBucket hbucket
  cases hsees : tx.SeesExpired committed bucket key env.second with
  | true =>
    obtain ⟨trace, hexpired⟩ := run_requireFresh_expired hopen hsees
    rw [hexpired] at hfresh
    cases hfresh
  | false =>
    rw [run_requireFresh_live hopen hsees] at hfresh
    cases hfresh
    exact ⟨hopen, rfl, rfl⟩

theorem of_run_read {view : Store → Except Error α} {a : α}
    (h : Attempt.run (do checkRead committed bucket key; look committed bucket view) ⟨tx, env⟩ = (.ok a, w)) :
    tx.isClosed = false ∧ tx.SeesExpired committed bucket key env.second = false ∧
      tx.Sees committed bucket view a := by
  obtain ⟨_, middle, hcheck, hlook⟩ := Attempt.of_run_bind h
  obtain ⟨hopen, hlive, rfl⟩ := of_run_checkRead hcheck
  exact ⟨hopen, hlive, (of_run_look hlook).2⟩

theorem run_range {items : List Bytes} (hopen : tx.isClosed = false)
    (hstore : tx.visible committed bucket = some store) (hlist : store.list? key = some items)
    (hlive : store.isExpired key env.second = false) :
    (range committed bucket key 0 (-1)).run ⟨tx, env⟩ = (.ok items, ⟨tx, env.tick⟩) := by
  rw [range, Attempt.run_bind_ok (run_checkRead hopen hstore hlive), run_look, hstore]
  simp only [Store.range_all hlist]

theorem run_ttl (hopen : tx.isClosed = false) (hstore : tx.visible committed bucket = some store) :
    (ttl committed bucket key).run ⟨tx, env⟩ = (store.ttl key env.second, ⟨tx, env.tick⟩) := by
  rw [ttl, Attempt.run_bind_ok (run_requireBucket hopen hstore), Attempt.run_bind_ok run_now, run_look, hstore]

theorem Sees.within {view : Store → Except Error α} {a : α} (h : tx.Sees committed bucket view a)
    {P : List Bytes → Prop} (hview : ∀ store, view store = .ok a → P ((store.list? key).getD [])) :
    P (tx.items committed bucket key) := by
  obtain ⟨store, hstore, hanswer⟩ := h
  rw [items, hstore]
  exact hview store hanswer

/-! ## A new expiry -/

/-- A new expiry is set whether or not the list has expired. -/
theorem run_expire {draft : Draft} (hstore : (Tx.writing draft).visible committed bucket = some store)
    (key : Bytes) (ttl : UInt32) (env : Env) :
    (expire committed bucket key ttl).run ⟨.writing draft, env⟩ =
      (.ok (), ⟨.writing ⟨draft.pending ++ [Record.ofCommand bucket (.expire key ttl) env.second],
          draft.working.install bucket (store.putExpiry key ⟨ttl, env.second⟩)⟩,
        { env.tick with trace := .staged .expire bucket 1 :: env.trace }⟩) := by
  have hwritable : checkWritable.run (⟨.writing draft, env⟩ : Work) = (.ok (), ⟨.writing draft, env⟩) := rfl
  have hput : (Store.apply (.expire key ttl) env.second).run store =
      (.ok 1, store.putExpiry key ⟨ttl, env.second⟩) := rfl
  have hstage := run_stageAt_writing committed bucket draft env.tick (.expire key ttl) env.second
  rw [copyOf_eq hstore, hput] at hstage
  rw [expire, Attempt.run_bind_ok hwritable, Attempt.run_bind_ok (run_requireBucket rfl hstore),
    Attempt.run_bind_ok run_now, Attempt.run_bind_ok (run_onCopy_writing committed bucket draft env.tick _),
    Attempt.run_bind]
  simp only [Attempt.run_modify]
  rw [run_stageAt_expire, hstage]
  rfl

end Tx

/-! ## Requests -/

/-- A read that answers has met the list live, and shows elements that the transaction sees in it. -/
theorem Request.shown_of_perform {committed : Index} {bucket : String} {key : Bytes} {tx : Tx} {env : Env}
    {request : Request} {reply : Reply} {w : Tx.Work} (hreads : request.Reads key)
    (h : (request.perform committed bucket).run ⟨tx, env⟩ = (.ok reply, w)) :
    tx.isClosed = false ∧ tx.SeesExpired committed bucket key env.second = false ∧
      reply.Within (tx.items committed bucket key) := by
  have hpeek {side : Side} {value : Bytes} {w' : Tx.Work}
      (h : (Tx.peek committed side bucket key).run ⟨tx, env⟩ = (.ok value, w')) :
      tx.isClosed = false ∧ tx.SeesExpired committed bucket key env.second = false ∧
        (Reply.value value).Within (tx.items committed bucket key) := by
    obtain ⟨hopen, hlive, hsees⟩ := Tx.of_run_read h
    exact ⟨hopen, hlive, hsees.within fun _ => Store.mem_of_peek⟩
  cases request with
  | pop side other =>
    cases hreads
    obtain ⟨value, w₁, hpop, hreply⟩ := Attempt.of_run_bind h
    cases hreply
    obtain ⟨_, w₂, hwritable, hrest⟩ := Attempt.of_run_bind hpop
    rw [Tx.of_run_checkWritable hwritable] at hrest
    obtain ⟨found, w₃, hfound, hstage⟩ := Attempt.of_run_bind hrest
    obtain ⟨_, w₄, -, hvalue⟩ := Attempt.of_run_bind hstage
    cases hvalue
    exact hpeek hfound
  | peek side other =>
    cases hreads
    obtain ⟨value, w₁, hread, hreply⟩ := Attempt.of_run_bind h
    cases hreply
    exact hpeek hread
  | length other =>
    cases hreads
    obtain ⟨size, w₁, hread, hreply⟩ := Attempt.of_run_bind h
    cases hreply
    obtain ⟨hopen, hlive, hsees⟩ := Tx.of_run_read hread
    exact ⟨hopen, hlive, hsees.within (P := fun items => size ≤ items.length) fun _ hview =>
      Nat.le_of_eq (Store.eq_of_length hview)⟩
  | range other start stop =>
    cases hreads
    obtain ⟨values, w₁, hread, hreply⟩ := Attempt.of_run_bind h
    cases hreply
    obtain ⟨hopen, hlive, hsees⟩ := Tx.of_run_read hread
    exact ⟨hopen, hlive, hsees.within (P := fun items => values.Subperm items) fun _ =>
      Store.subperm_of_range⟩
  | _ => exact absurd hreads id

/-- A transaction that writes sets a new expiry of any list, expired or not, and as long as the new expiry lasts it
is shown the whole list. -/
theorem Request.shown_of_expire {committed : Index} {bucket : String} {key : Bytes} {tx : Tx} {store : Store}
    {items : List Bytes} (hwritable : tx.isWritable = true) (hstore : tx.visible committed bucket = some store)
    (hlist : store.list? key = some items) (ttl : UInt32) {env later : Env}
    (hlasts : (Expiry.mk ttl env.second).isExpired later.second = false) :
    ∃ w w', ((Request.expire key ttl).perform committed bucket).run ⟨tx, env⟩ = (.ok .done, w) ∧
      ((Request.range key 0 (-1)).perform committed bucket).run ⟨w.tx, later⟩ = (.ok (.values items), w') := by
  obtain ⟨draft, rfl⟩ := Tx.exists_draft hwritable
  have hexpire := Tx.run_expire hstore key ttl env
  have hlive : (store.putExpiry key ⟨ttl, env.second⟩).isExpired key later.second = false := by
    rw [Store.isExpired, Store.expiry?_putExpiry, if_pos rfl]
    exact hlasts
  have hvisible := Tx.visible_install committed bucket
    (draft.pending ++ [Record.ofCommand bucket (.expire key ttl) env.second]) draft.working
    (store.putExpiry key ⟨ttl, env.second⟩)
  have hrange := Tx.run_range rfl hvisible hlist hlive
  exact ⟨_, _, Attempt.run_bind_pure hexpire _, Attempt.run_bind_pure hrange _⟩

end DurableLists

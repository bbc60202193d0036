import DurableLists.Proofs.Tx.Shows

/-!
# What a request is refused for

Requests make the same checks in the same order and end with the first that fails. A closed transaction refuses every
request (`Request.run_perform_closed`) and a reading one every change (`Request.run_perform_reading`), and neither is
changed by it. A request that needs a list fails as the first look at the list does
(`Request.run_perform_of_list_error`). A guarded request is refused where the list has expired, and a transaction that
writes has then evicted the list and done nothing else (`Request.run_perform_expired`, `Tx.evicts_evict`).
-/

set_option autoImplicit false

namespace DurableLists

/-! ## Kinds of requests -/

namespace Request

/-- Whether a request is one for a transaction that writes. -/
def isChange : Request → Bool
  | .push .. | .pop .. | .remove .. | .replace .. | .trim .. | .removeAt .. | .expire .. => true
  | .peek .. | .length _ | .range .. | .checkExpire _ | .ttl _ | .expiry _ | .keys .. => false

/-- Whether a request is about the elements of the list under a key, and there has to be one. -/
def NeedsList (key : Bytes) : Request → Prop
  | .pop _ other | .peek _ other | .length other | .range other _ _ | .remove other _ _ | .replace other _ _
  | .trim other _ _ | .removeAt other _ => other = key
  | .push .. | .expire .. | .checkExpire _ | .ttl _ | .expiry _ | .keys .. => False

/-- Whether a request is refused where the list under a key has expired, by the check that evicts it. -/
def Guarded (key : Bytes) : Request → Prop
  | .push _ other values => other = key ∧ values ≠ [] ∧ containsSeparator key = false
  | request => request.NeedsList key

theorem NeedsList.guarded {request : Request} {key : Bytes} (h : request.NeedsList key) : request.Guarded key := by
  cases request with
  | push => cases h
  | _ => exact h

theorem Guarded.key?_eq {request : Request} {key : Bytes} (h : request.Guarded key) : request.key? = some key := by
  cases request with
  | push => exact congrArg some h.1
  | expire | checkExpire | ttl | expiry | keys => cases h
  | _ => exact congrArg some h

end Request

namespace Tx

variable {α : Type} {committed : Index} {bucket : String} {key : Bytes} {tx : Tx} {env : Env} {second : UInt64}

/-! ## Evictions -/

/-- How a transaction that evicts a key goes on: it has staged the deletion of the key, and sees neither a list nor
an expiry under it; whatever else it sees is as it was. -/
structure Evicts (committed : Index) (bucket : String) (key : Bytes) (second : UInt64) (tx tx' : Tx) : Prop where
  pending : tx'.pending = tx.pending ++ [Record.ofCommand bucket (.delete key) second]
  erased : ∃ store store', tx.visible committed bucket = some store ∧ tx'.visible committed bucket = some store' ∧
    store'.list? key = none ∧ store'.expiry? key = none ∧
    ∀ other, other ≠ key → store'.list? other = store.list? other ∧ store'.expiry? other = store.expiry? other
  elsewhere : ∀ other, other ≠ bucket → tx'.visible committed other = tx.visible committed other

theorem SeesExpired.exists_store (h : tx.SeesExpired committed bucket key second = true) :
    ∃ store, tx.visible committed bucket = some store ∧ store.isExpired key second = true := by
  rw [SeesExpired, Option.any_eq_true] at h
  exact h

theorem evict_of_not_writable (h : tx.isWritable = false) : tx.evict committed bucket key second = tx := by
  cases tx with
  | writing draft => cases h
  | reading => rfl
  | closed => rfl

theorem isWritable_evict : (tx.evict committed bucket key second).isWritable = tx.isWritable := by
  cases tx <;> rfl

theorem evicts_evict (hwrites : tx.isWritable = true)
    (hexpired : tx.SeesExpired committed bucket key second = true) :
    tx.Evicts committed bucket key second (tx.evict committed bucket key second) := by
  obtain ⟨store, hstore, -⟩ := SeesExpired.exists_store hexpired
  obtain ⟨draft, rfl⟩ := exists_draft hwrites
  refine ⟨rfl, ⟨store, store.erase key, hstore, ?_, ?_, ?_, fun other hother => ⟨?_, ?_⟩⟩, fun other hother => ?_⟩
  · rw [evict, visible_install, copyOf_eq hstore]
  · rw [Store.list?_erase, if_pos rfl]
  · rw [Store.expiry?_erase, if_pos rfl]
  · rw [Store.list?_erase, if_neg (Ne.symm hother)]
  · rw [Store.expiry?_erase, if_neg (Ne.symm hother)]
  · rw [evict, visible, Index.store?_install, if_neg (Ne.symm hother)]
    rfl

/-! ## The check for an expired list -/

theorem run_checkRead_expired (hopen : tx.isClosed = false)
    (hexpired : tx.SeesExpired committed bucket key env.second = true) :
    ∃ trace, (checkRead committed bucket key).run ⟨tx, env⟩ =
      (.error .keyNotFound, ⟨tx.evict committed bucket key env.second, ⟨env.clock.tick, trace⟩⟩) := by
  obtain ⟨store, hstore, -⟩ := SeesExpired.exists_store hexpired
  obtain ⟨trace, hfresh⟩ := run_requireFresh_expired hopen hexpired
  refine ⟨trace, ?_⟩
  rw [checkRead, Attempt.run_bind_ok (run_requireBucket hopen hstore)]
  exact hfresh

theorem run_push_expired (hwritable : tx.isWritable = true) (hkey : containsSeparator key = false)
    (hexpired : tx.SeesExpired committed bucket key env.second = true) (side : Side) (value : Bytes)
    (values : List Bytes) :
    ∃ trace, (push committed side bucket key (value :: values)).run ⟨tx, env⟩ =
      (.error .keyNotFound, ⟨tx.evict committed bucket key env.second, ⟨env.clock.tick, trace⟩⟩) := by
  obtain ⟨trace, hfresh⟩ := run_requireFresh_expired (isClosed_of_isWritable hwritable) hexpired
  refine ⟨trace, ?_⟩
  rw [push, Attempt.run_bind_ok (run_checkWritable hwritable env)]
  simp only [hkey, Bool.false_eq_true, if_false]
  rw [pushEach, Attempt.run_bind_error hfresh]

/-- The time that a list has left is asked for without that check, and refused without an eviction. -/
theorem run_ttl_expired (hopen : tx.isClosed = false)
    (hexpired : tx.SeesExpired committed bucket key env.second = true) :
    ((Request.ttl key).perform committed bucket).run ⟨tx, env⟩ = (.error .keyNotFound, ⟨tx, env.tick⟩) := by
  obtain ⟨store, hstore, hold⟩ := SeesExpired.exists_store hexpired
  rw [Request.perform, Attempt.run_bind_error]
  rw [run_ttl hopen hstore, Store.ttl_of_isExpired hold]

/-! ## Looks at a list -/

theorem run_look_of_list_error {view : Store → Except Error α} {next : List Bytes → Except Error α} {w w' : Work}
    {e : Error} (hview : ∀ store : Store, view store = (store.list key >>= next))
    (h : (look committed bucket fun store => store.list key).run w = (.error e, w')) :
    (look committed bucket view).run w = (.error e, w') := by
  rw [run_look] at h ⊢
  cases hstore : w.tx.visible committed bucket with
  | none =>
    rw [hstore] at h
    cases h
    rfl
  | some store =>
    rw [hstore] at h
    obtain ⟨hlist, rfl⟩ := Prod.mk.inj h
    simp only [hview, hlist]
    rfl

theorem run_read_of_list_error {view : Store → Except Error α} {next : List Bytes → Except Error α} {w w' : Work}
    {e : Error} (hview : ∀ store : Store, view store = (store.list key >>= next))
    (h : Attempt.run (do checkRead committed bucket key; look committed bucket fun store => store.list key) w =
      (.error e, w')) :
    Attempt.run (do checkRead committed bucket key; look committed bucket view) w = (.error e, w') := by
  rcases hcheck : (checkRead committed bucket key).run w with ⟨_ | _, middle⟩
  · rw [Attempt.run_bind_error hcheck] at h ⊢
    cases h
    rfl
  · rw [Attempt.run_bind_ok hcheck] at h ⊢
    exact run_look_of_list_error hview h

end Tx

theorem Store.requireKey_eq (s : Store) (key : Bytes) :
    (if s.containsKey key then .ok () else .error .keyNotFound : Except Error Unit) =
      (s.list key >>= fun _ => .ok ()) := by
  rw [containsKey_eq_isSome, list]
  cases s.list? key <;> rfl

/-! ## Refusals of requests -/

namespace Request

variable {committed : Index} {bucket : String} {key : Bytes} {tx : Tx} {env : Env} {request : Request}

theorem run_perform_closed (committed : Index) (bucket : String) (request : Request) (env : Env) :
    (request.perform committed bucket).run ⟨.closed, env⟩ = (.error .transactionClosed, ⟨.closed, env⟩) := by
  cases request <;> rfl

theorem run_perform_reading (committed : Index) (bucket : String) (h : request.isChange = true) (env : Env) :
    (request.perform committed bucket).run ⟨.reading, env⟩ =
      (.error .transactionNotWritable, ⟨.reading, env⟩) := by
  cases request with
  | peek | length | range | checkExpire | ttl | expiry | keys => cases h
  | _ => rfl

/-- A request that needs a list fails as the first look at it does, the checks before it included. -/
theorem run_perform_of_list_error (hneeds : request.NeedsList key)
    (hwrites : request.isChange = true → tx.isWritable = true) {e : Error} {w : Tx.Work}
    (h : Attempt.run (do Tx.checkRead committed bucket key; Tx.look committed bucket fun store => store.list key)
      ⟨tx, env⟩ = (.error e, w)) :
    (request.perform committed bucket).run ⟨tx, env⟩ = (.error e, w) := by
  have hwritable (hchange : request.isChange = true) :
      Tx.checkWritable.run ⟨tx, env⟩ = (.ok (), ⟨tx, env⟩) := Tx.run_checkWritable (hwrites hchange) env
  have hread {α : Type} (view : Store → Except Error α) {next : List Bytes → Except Error α}
      (hview : ∀ store : Store, view store = (store.list key >>= next)) :
      Attempt.run (do Tx.checkRead committed bucket key; Tx.look committed bucket view) ⟨tx, env⟩ =
        (.error e, w) := Tx.run_read_of_list_error hview h
  have hcheck {α : Type} (hchange : request.isChange = true) (view : Store → Except Error α)
      {next : List Bytes → Except Error α} (hview : ∀ store : Store, view store = (store.list key >>= next)) :
      Attempt.run (do Tx.checkChange committed bucket key; Tx.look committed bucket view) ⟨tx, env⟩ =
        (.error e, w) := by
    rw [Tx.checkChange, bind_assoc, Attempt.run_bind_ok (hwritable hchange)]
    exact hread view hview
  -- Each of these requests asks for the list first, whatever it then looks at.
  have hkey (store : Store) : (if store.containsKey key then .ok () else .error .keyNotFound : Except Error Unit) =
      (store.list key >>= fun _ => .ok ()) := store.requireKey_eq key
  cases request with
  | pop side other =>
    cases hneeds
    have hpeek : (Tx.peek committed side bucket key).run ⟨tx, env⟩ = (.error e, w) := hread _ fun _ => rfl
    rw [perform, Attempt.run_bind_error]
    rw [Tx.pop, Attempt.run_bind_ok (hwritable rfl), Attempt.run_bind_error hpeek]
  | peek side other =>
    cases hneeds
    rw [perform, Tx.peek, Attempt.run_bind_error (hread (fun store => store.peek side key) fun _ => rfl)]
  | length other =>
    cases hneeds
    rw [perform, Tx.length, Attempt.run_bind_error (hread (fun store => store.length key) fun _ => rfl)]
  | range other start stop =>
    cases hneeds
    rw [perform, Tx.range, Attempt.run_bind_error (hread (fun store => store.range key start stop) fun _ => rfl)]
  | remove other count value =>
    cases hneeds
    rw [perform, Attempt.run_bind_error]
    rw [Tx.remove, Attempt.run_bind_bind_error (hcheck rfl (fun store => store.length key) fun _ => rfl)]
  | replace other index value =>
    cases hneeds
    rw [perform, Attempt.run_bind_error]
    rw [Tx.replace, Tx.requireKey, Attempt.run_bind_bind_error (hcheck rfl _ hkey)]
  | trim other start stop =>
    cases hneeds
    rw [perform, Attempt.run_bind_error]
    rw [Tx.trim, Tx.requireKey, Attempt.run_bind_bind_error (hcheck rfl _ hkey)]
  | removeAt other indexes =>
    cases hneeds
    rw [perform, Attempt.run_bind_error]
    have hremovable := hcheck rfl (fun store => store.removableAt key (IndexSet.normalize indexes)) fun _ => rfl
    rw [Tx.removeAt, Attempt.run_bind_bind_error hremovable]
  | _ => exact absurd hneeds id

/-- A guarded request that meets an expired list is refused, after the eviction. -/
theorem run_perform_expired (hguarded : request.Guarded key) (hopen : tx.isClosed = false)
    (hwrites : request.isChange = true → tx.isWritable = true)
    (hexpired : tx.SeesExpired committed bucket key env.second = true) :
    ∃ trace, (request.perform committed bucket).run ⟨tx, env⟩ =
      (.error .keyNotFound, ⟨tx.evict committed bucket key env.second, ⟨env.clock.tick, trace⟩⟩) := by
  by_cases hneeds : request.NeedsList key
  · obtain ⟨trace, hcheck⟩ := Tx.run_checkRead_expired hopen hexpired
    exact ⟨trace, run_perform_of_list_error hneeds hwrites (Attempt.run_bind_error hcheck)⟩
  · cases request with
    | push side other values =>
      obtain ⟨rfl, hvalues, hkey⟩ := hguarded
      obtain ⟨value, rest, rfl⟩ := List.exists_cons_of_ne_nil hvalues
      obtain ⟨trace, hpush⟩ := Tx.run_push_expired (hwrites rfl) hkey hexpired side value rest
      exact ⟨trace, by rw [perform, Attempt.run_bind_error hpush]⟩
    | _ => exact absurd hguarded hneeds

end Request

end DurableLists

import DurableLists.Proofs.Tx.Guards

/-!
# A key with nothing under it

`Tx.Lacks` says that a transaction writes and sees a bucket with neither a list nor an expiry under a key. Then the
key has not expired, no request finds a list under it, and a push begins a new list (`Tx.Lacks.findsNothing`). A
request that does not revive the key, by a push or a new expiry, leaves it so, and so do any number of them
(`Tx.Lacks.perform`, `Tx.Lacks.performAll`).
-/

set_option autoImplicit false

namespace DurableLists

/-! ## Requests one after another -/

namespace Request

/-- Whether a request may put something under a key. -/
def Revives (key : Bytes) : Request → Prop
  | .push _ other _ | .expire other _ => other = key
  | .pop .. | .peek .. | .length _ | .range .. | .remove .. | .replace .. | .trim .. | .removeAt ..
  | .checkExpire _ | .ttl _ | .expiry _ | .keys .. => False

theorem of_key? {request : Request} {key : Bytes} (h : request.key? = some key) :
    request.NeedsList key ∨ request.Revives key ∨ request = .checkExpire key ∨ request = .ttl key ∨
      request = .expiry key := by
  cases request <;> cases h <;> simp [NeedsList, Revives]

/-- What a transaction becomes by requests in buckets, made one after another, whatever each of them answers. -/
def performAll (committed : Index) : List (String × Request) → Tx.Work → Tx.Work
  | [], w => w
  | (bucket, request) :: rest, w => performAll committed rest ((request.perform committed bucket).run w).2

end Request

/-! ## Listings -/

namespace Store

/-- The keys that a listing brings. -/
def listed (s : Store) (pattern : String) (last : Option Nat) (second : UInt64) : List Bytes :=
  let live := s.keys.filter fun key => !s.isExpired key second
  let found := live.filter fun key => Glob.matchesText pattern.toList (Utf8.decodeLossy key)
  match last with
  | some (n + 1) => found.take (n + 1)
  | _ => found

theorem of_mem_listed {s : Store} {pattern : String} {last : Option Nat} {second : UInt64} {key : Bytes}
    (h : key ∈ s.listed pattern last second) : s.containsKey key = true ∧ s.isExpired key second = false := by
  have hfound : key ∈ (s.keys.filter fun key => !s.isExpired key second).filter fun key =>
      Glob.matchesText pattern.toList (Utf8.decodeLossy key) := by
    unfold listed at h
    match last, h with
    | some (n + 1), h => exact List.mem_of_mem_take h
    | some 0, h => exact h
    | none, h => exact h
  obtain ⟨hkey, hlive⟩ := List.mem_filter.mp (List.mem_filter.mp hfound).1
  exact ⟨Std.ExtTreeMap.mem_keys.mp hkey, by simpa using hlive⟩

end Store

namespace Tx

variable {committed : Index} {bucket : String} {key : Bytes} {tx : Tx} {env : Env}

theorem run_keys (hopen : tx.isClosed = false) {store : Store} (hstore : tx.visible committed bucket = some store)
    (pattern : String) (last : Option Nat) (env : Env) :
    ∃ trace, ((Request.keys pattern last).perform committed bucket).run ⟨tx, env⟩ =
      (.ok (.values (store.listed pattern last env.second)), ⟨tx, ⟨env.clock.tick, trace⟩⟩) := by
  rw [Request.perform, keys, Attempt.run_bind, Attempt.run_bind_ok (run_requireBucket hopen hstore),
    Attempt.run_bind_ok run_now, Attempt.run_bind_ok run_store?, hstore]
  simp only [Option.getD_some, List.partition_eq_filter_filter]
  exact ⟨_, rfl⟩

/-! ## What is answered about the key -/

/-- Whether a transaction writes, and sees a bucket with neither a list nor an expiry under a key. -/
structure Lacks (committed : Index) (bucket : String) (key : Bytes) (tx : Tx) : Prop where
  writes : tx.isWritable = true
  seen : ∃ store, tx.visible committed bucket = some store ∧ store.list? key = none ∧ store.expiry? key = none

/-- How a transaction answers about a key with nothing under it. -/
structure FindsNothing (committed : Index) (bucket : String) (key : Bytes) (tx : Tx) : Prop where
  /-- The key has not expired. -/
  fresh : ∀ env, ((Request.checkExpire key).perform committed bucket).run ⟨tx, env⟩ =
    (.ok (.flag false), ⟨tx, env.tick⟩)
  /-- No list is found, and nothing is staged. -/
  refused : ∀ request : Request, request.NeedsList key ∨ request = .ttl key → ∀ env,
    (request.perform committed bucket).run ⟨tx, env⟩ = (.error .keyNotFound, ⟨tx, env.tick⟩)
  /-- The key is not listed. -/
  unlisted : ∀ (pattern : String) (last : Option Nat) (env : Env), ∃ (found : List Bytes) (trace : List Event),
    ((Request.keys pattern last).perform committed bucket).run ⟨tx, env⟩ =
      (.ok (.values found), ⟨tx, ⟨env.clock.tick, trace⟩⟩) ∧ key ∉ found
  /-- A push begins a list of the values that it brings. -/
  begun : containsSeparator key = false → ∀ (side : Side) (values : List Bytes), values ≠ [] → ∀ env, ∃ w,
    ((Request.push side key values).perform committed bucket).run ⟨tx, env⟩ = (.ok .done, w) ∧
      w.tx.Shows committed bucket key ((ListOp.push side values).onPlain []).2

namespace Lacks

theorem live (h : tx.Lacks committed bucket key) (second : UInt64) :
    tx.SeesExpired committed bucket key second = false := by
  obtain ⟨-, store, hstore, -, hexpiry⟩ := h
  rw [SeesExpired, hstore]
  exact Store.isExpired_of_expiry?_none hexpiry second

theorem refused (h : tx.Lacks committed bucket key) {request : Request} (hneeds : request.NeedsList key) (env : Env) :
    (request.perform committed bucket).run ⟨tx, env⟩ = (.error .keyNotFound, ⟨tx, env.tick⟩) := by
  obtain ⟨hwrites, store, hstore, hlist, hexpiry⟩ := h
  refine Request.run_perform_of_list_error hneeds (fun _ => hwrites) ?_
  rw [Attempt.run_bind_ok (run_checkRead (isClosed_of_isWritable hwrites) hstore (Store.isExpired_of_expiry?_none hexpiry _)), run_look,
    hstore]
  simp only [Store.list, hlist]

theorem run_ttl (h : tx.Lacks committed bucket key) (env : Env) :
    ((Request.ttl key).perform committed bucket).run ⟨tx, env⟩ = (.error .keyNotFound, ⟨tx, env.tick⟩) := by
  obtain ⟨hwrites, store, hstore, hlist, hexpiry⟩ := h
  rw [Request.perform, Attempt.run_bind_error]
  rw [Tx.run_ttl (isClosed_of_isWritable hwrites) hstore, Store.ttl_of_unknown hlist hexpiry]

theorem run_push (h : tx.Lacks committed bucket key) (hkey : containsSeparator key = false) (side : Side)
    {values : List Bytes} (hvalues : values ≠ []) (env : Env) :
    ∃ w, ((Request.push side key values).perform committed bucket).run ⟨tx, env⟩ = (.ok .done, w) ∧
      w.tx.Shows committed bucket key ((ListOp.push side values).onPlain []).2 := by
  obtain ⟨value, rest, rfl⟩ := List.exists_cons_of_ne_nil hvalues
  have hfresh := run_requireFresh_live (isClosed_of_isWritable h.writes) (h.live env.second)
  obtain ⟨hwrites, store, hstore, hlist, hexpiry⟩ := h
  have happly (second : UInt64) : (Store.apply (.push side key value) second).run store =
      (.ok 1, store.putList key (side.insert value [])) := by
    rw [Store.run_apply_push, hlist]
    rfl
  -- The first value begins the list; the others go on with it.
  obtain ⟨w, hstage, hshows⟩ := run_stage_put hwrites hstore hexpiry happly env.tick
  obtain ⟨w', hrest, hshows'⟩ := hshows.run_pushEach side rest w.env
  refine ⟨w', ?_, ?_⟩
  · rw [Request.perform, push, Attempt.run_bind, Attempt.run_bind_ok (run_checkWritable hwrites env)]
    simp only [hkey, Bool.false_eq_true, if_false]
    rw [pushEach, Attempt.run_bind_ok hfresh, Attempt.run_bind_ok hstage, hrest]
    rfl
  · rw [ListOp.onPlain_push, List.foldl_cons]
    exact hshows'

theorem findsNothing (h : tx.Lacks committed bucket key) : tx.FindsNothing committed bucket key where
  fresh env :=
    Attempt.run_bind_pure (run_checkExpire_live (isClosed_of_isWritable h.writes) (h.live env.second)) _
  refused request hrequest env := by
    rcases hrequest with hneeds | rfl
    · exact h.refused hneeds env
    · exact h.run_ttl env
  unlisted pattern last env := by
    obtain ⟨hwrites, store, hstore, hlist, -⟩ := h
    obtain ⟨trace, hkeys⟩ := run_keys (isClosed_of_isWritable hwrites) hstore pattern last env
    refine ⟨_, trace, hkeys, fun hmem => ?_⟩
    have hcontains := (Store.of_mem_listed hmem).1
    rw [Store.containsKey_eq_isSome, hlist] at hcontains
    cases hcontains
  begun hkey side values hvalues env := h.run_push hkey side hvalues env

/-! ## What leaves the key so -/

/-- A request that does not revive the key leaves nothing under it. -/
theorem perform (h : tx.Lacks committed bucket key) {other : String} {request : Request}
    (hspares : other = bucket → ¬request.Revives key) (env : Env) :
    ((request.perform committed other).run ⟨tx, env⟩).2.tx.Lacks committed bucket key := by
  by_cases hapart : other ≠ bucket ∨ request.key? ≠ some key
  · have hgrows := Request.grows_perform committed other request ⟨tx, env⟩
    obtain ⟨hwrites, store, hstore, hlist, hexpiry⟩ := h
    obtain ⟨store', hstore', hlist', hexpiry'⟩ := hgrows.apart hapart hstore
    exact ⟨hgrows.isWritable_eq.trans hwrites, store', hstore', hlist'.trans hlist, hexpiry'.trans hexpiry⟩
  · -- The request is about the key itself, and finds nothing.
    obtain ⟨rfl, habout⟩ : other = bucket ∧ request.key? = some key := by
      rwa [not_or, not_ne_iff, not_ne_iff] at hapart
    have hkeeps : ((request.perform committed other).run ⟨tx, env⟩).2.tx = tx := by
      rcases Request.of_key? habout with hneeds | hrevives | rfl | rfl | rfl
      · rw [h.refused hneeds]
      · exact absurd hrevives (hspares rfl)
      · rw [h.findsNothing.fresh]
      · rw [h.run_ttl]
      · exact (congrArg Work.tx (Attempt.state_run_bind_pure _ _ _)).trans (keepsTx_expiry committed other key _)
    rw [hkeeps]
    exact h

theorem performAll (h : tx.Lacks committed bucket key) {between : List (String × Request)}
    (hspares : ∀ use ∈ between, use.1 = bucket → ¬use.2.Revives key) (env : Env) :
    (Request.performAll committed between ⟨tx, env⟩).tx.Lacks committed bucket key := by
  induction between generalizing tx env with
  | nil => exact h
  | cons use between ih =>
    obtain ⟨hfirst, hrest⟩ := List.forall_mem_cons.mp hspares
    exact ih (h.perform hfirst env) hrest _

end Lacks

theorem Evicts.lacks {tx' : Tx} {second : UInt64} (h : tx.Evicts committed bucket key second tx')
    (hwrites : tx'.isWritable = true) : tx'.Lacks committed bucket key := by
  obtain ⟨_, store, -, hstore, hlist, hexpiry, -⟩ := h.erased
  exact ⟨hwrites, store, hstore, hlist, hexpiry⟩

end Tx

end DurableLists

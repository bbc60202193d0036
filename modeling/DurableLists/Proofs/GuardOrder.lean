import DurableLists.Proofs.Expiration
import DurableLists.Proofs.Session.Drafts
import DurableLists.Proofs.Tx.Guards

/-!
# The order of the checks

Before an operation on a list looks at anything else it asks whether the transaction is open, then whether it may
change anything, then for the bucket, or for the separator if it is a push. A call that one of these checks stops
changes nothing at all (`Database.Handle.Refuses`): what would be wrong behind the check, an expired list included,
is not met. `Database.Handle.refuses_first` puts the checks together, for all calls that are made of a transaction.
-/

set_option autoImplicit false

namespace DurableLists

namespace Request

/-- Whether a request is one that asks for its bucket. A push creates the bucket, and the check for an expired list
takes a bucket that is missing for one without the list. -/
def NeedsBucket : Request → Prop
  | .push .. | .checkExpire _ => False
  | .pop .. | .peek .. | .length _ | .range .. | .remove .. | .replace .. | .trim .. | .removeAt .. | .expire ..
  | .ttl _ | .expiry _ | .keys .. => True

variable {committed : Index} {bucket : String} {tx : Tx} {env : Env} {request : Request}

/-- A push under a key with the separator is refused before it looks at the list. -/
theorem run_push_separator (hwrites : tx.isWritable = true) {key : Bytes} (hkey : containsSeparator key = true)
    (side : Side) (values : List Bytes) :
    ((Request.push side key values).perform committed bucket).run ⟨tx, env⟩ =
      (.error .separatorViolation, ⟨tx, env⟩) := by
  rw [perform, Attempt.run_bind_error]
  rw [Tx.push, Attempt.run_bind_ok (Tx.run_checkWritable hwrites env)]
  simp only [hkey, if_true]
  rfl

/-- A request that needs its bucket is refused where the transaction sees none. -/
theorem run_perform_missing (hneeds : request.NeedsBucket) (hopen : tx.isClosed = false)
    (hwrites : request.isChange = true → tx.isWritable = true) (hmissing : tx.visible committed bucket = none) :
    (request.perform committed bucket).run ⟨tx, env⟩ = (.error .bucketNotFound, ⟨tx, env⟩) := by
  have hrequire : (Tx.requireBucket committed bucket).run ⟨tx, env⟩ = (.error .bucketNotFound, ⟨tx, env⟩) :=
    Tx.run_requireBucket_missing hopen hmissing
  by_cases hlist : ∃ key, request.NeedsList key
  · obtain ⟨key, hlist⟩ := hlist
    refine run_perform_of_list_error hlist hwrites (Attempt.run_bind_error ?_)
    rw [Tx.checkRead, Attempt.run_bind_error hrequire]
  · cases request with
    | push | checkExpire => exact absurd hneeds id
    | expire key ttl =>
      rw [perform, Attempt.run_bind_error]
      rw [Tx.expire, Attempt.run_bind_ok (Tx.run_checkWritable (hwrites rfl) env), Attempt.run_bind_error hrequire]
    | ttl key =>
      rw [perform, Attempt.run_bind_error]
      rw [Tx.ttl, Attempt.run_bind_error hrequire]
    | expiry key =>
      rw [perform, Attempt.run_bind_error]
      rw [Tx.expiry, Attempt.run_bind_error hrequire]
    | keys pattern last =>
      rw [perform, Attempt.run_bind_error]
      rw [Tx.keys, Attempt.run_bind_error hrequire]
    | _ => exact absurd ⟨_, rfl⟩ hlist

end Request

/-! ## Calls of a handle -/

/-- Whether a use asks something of a transaction, and does not only look at what it is. -/
def Use.IsCall : Use → Prop
  | .list .. | .commit | .rollback => True
  | .pending | .isWritable | .isClosed => False

namespace Database

namespace Handle

variable {h : Handle} {bucket : String} {request : Request} {e : Error}

/-- Whether a use is refused with an error, and changes nothing: neither the transaction nor the database, neither
the files nor the clock nor the trace. -/
def Refuses (h : Handle) (use : Use) (e : Error) : Prop := use.perform.run h = (.error e, h)

/-- A request that is refused and leaves the transaction, the clock and the trace leaves everything. -/
theorem refuses_of_request
    (hrequest : (request.perform h.db.index bucket).run ⟨h.tx, h.machine.env⟩ = (.error e, ⟨h.tx, h.machine.env⟩)) :
    h.Refuses (.list bucket request) e := by
  rw [Refuses, Use.perform, onTx, Attempt.run_ofFn]
  simp only [hrequest]

theorem isClosed_of_ending (h : Handle) {ending : Use} (hending : ending = .commit ∨ ending = .rollback) :
    (ending.perform.run h).2.tx.isClosed = true := by
  rcases hending with rfl | rfl
  · rw [Use.perform, Attempt.state_run_bind_pure, tx_commit]
    rfl
  · obtain ⟨trace, hrollback⟩ := run_rollback (h := h)
    rw [Use.perform, Attempt.state_run_bind_pure, hrollback]
    rfl

theorem refuses_of_closed (hclosed : h.tx.isClosed = true) {use : Use} (hcall : use.IsCall) :
    h.Refuses use .transactionClosed := by
  obtain ⟨tx, db, machine⟩ := h
  obtain rfl : tx = .closed := Tx.eq_closed hclosed
  cases use with
  | list bucket request => exact refuses_of_request (Request.run_perform_closed db.index bucket request machine.env)
  | commit => rfl
  | rollback => rfl
  | _ => exact absurd hcall id

/-- The checks come first and in one order. After a commit, whether or not it has succeeded, and after a rollback, a
transaction is closed, and a closed one refuses every call. One that reads refuses every change. One that writes
refuses a push under a key with the separator, whatever stands under the key, and an open one every other request that
it may make and that needs a bucket which it does not see. Each of these refusals changes nothing. -/
theorem refuses_first (h : Handle) :
    (∀ ending, ending = Use.commit ∨ ending = Use.rollback → (ending.perform.run h).2.tx.isClosed = true) ∧
    (h.tx.isClosed = true → ∀ use : Use, use.IsCall → h.Refuses use .transactionClosed) ∧
    (h.tx = .reading → ∀ (bucket : String) (request : Request), request.isChange = true →
      h.Refuses (.list bucket request) .transactionNotWritable) ∧
    (h.tx.isWritable = true → ∀ (bucket : String) (side : Side) (key : Bytes) (values : List Bytes),
      containsSeparator key = true → h.Refuses (.list bucket (.push side key values)) .separatorViolation) ∧
    (h.tx.isClosed = false → ∀ (bucket : String) (request : Request), request.NeedsBucket →
      (request.isChange = true → h.tx.isWritable = true) → h.tx.visible h.db.index bucket = none →
      h.Refuses (.list bucket request) .bucketNotFound) := by
  refine ⟨fun ending => isClosed_of_ending h, fun hclosed use => refuses_of_closed hclosed, ?_, ?_, ?_⟩
  · intro hreads bucket request hchange
    refine refuses_of_request ?_
    rw [hreads]
    exact Request.run_perform_reading h.db.index bucket hchange h.machine.env
  · intro hwrites bucket side key values hkey
    exact refuses_of_request (Request.run_push_separator hwrites hkey side values)
  · intro hopen bucket request hneeds hwrites hmissing
    exact refuses_of_request (Request.run_perform_missing hneeds hopen hwrites hmissing)

end Handle

end Database

namespace Session

open Database

/-- A push, and an expiry under a key with the separator that has passed with the next reading. -/
def barredActions : List (Action Unit) :=
  [.update (.use (.list "b" (.push .tail [107] [[97]])) fun _ =>
    .use (.list "b" (.expire [124] 5)) fun _ => .done (.ok ()))]

def barredOpen : Handle :=
  ⟨Tx.begin true, (run barredActions agingStart).2.db.get (by cbv), (run barredActions agingStart).2.machine⟩

theorem barredOpen_sees_expired :
    barredOpen.tx.SeesExpired barredOpen.db.index "b" [124] barredOpen.machine.env.second = true := by
  cbv

theorem refused_at_each_check :
    (barredOpen.tx.SeesExpired barredOpen.db.index "b" [124] barredOpen.machine.env.second = true ∧
      barredOpen.Refuses (.list "b" (.push .tail [124] [[97]])) .separatorViolation) ∧
    barredOpen.Refuses (.list "c" (.expire [107] 5)) .bucketNotFound ∧
    Handle.Refuses { barredOpen with tx := .reading } (.list "b" (.removeAt [107] [0])) .transactionNotWritable ∧
    (Use.rollback.perform.run barredOpen).2.Refuses .commit .transactionClosed := by
  obtain ⟨hends, -, -, hseparator, hmissing⟩ := barredOpen.refuses_first
  obtain ⟨-, -, hreads, -, -⟩ := Handle.refuses_first { barredOpen with tx := .reading }
  obtain ⟨-, hclosed, -, -, -⟩ := (Use.rollback.perform.run barredOpen).2.refuses_first
  refine ⟨⟨barredOpen_sees_expired, hseparator rfl "b" .tail [124] [[97]] (by decide)⟩, ?_, ?_, ?_⟩
  · exact hmissing rfl "c" (.expire [107] 5) trivial (fun _ => rfl) (by cbv)
  · exact hreads rfl "b" (.removeAt [107] [0]) rfl
  · exact hclosed (hends .rollback (Or.inr rfl)) .commit trivial

end Session

end DurableLists

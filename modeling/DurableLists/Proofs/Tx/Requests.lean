import DurableLists.Tx.Request
import DurableLists.Proofs.Tx.Staging

/-!
# Requests stage

Whatever a request answers, a transaction gets from it by staging justified commands alone
(`Request.grows_perform`). A request is made of lookups, which change nothing, of the expiry check, which may
evict a key, and of a command at its end: what the last lookup has seen of the bucket justifies that command
(`ensures_stage_of_seen`), so staging it cannot fail.
-/

set_option autoImplicit false

namespace DurableLists

namespace Tx

open Attempt

variable {α β : Type} {committed : Index} {bucket : String} {key? : Option Bytes} {origin : Tx}

/-- Whether a transaction at work has grown from `origin`. -/
def Grown (committed : Index) (bucket : String) (key? : Option Bytes) (origin : Tx) (w : Work) : Prop :=
  Grows committed bucket key? origin w.tx

/-- A call by which a transaction grows, whatever the call answers. -/
def Staging (committed : Index) (bucket : String) (key? : Option Bytes) (call : Call α) : Prop :=
  ∀ origin, Ensures (Grown committed bucket key? origin) call (fun _ => Grown committed bucket key? origin)
    (Grown committed bucket key? origin)

theorem Staging.bind {call : Call α} {next : α → Call β} (h : Staging committed bucket key? call)
    (hnext : ∀ a, Staging committed bucket key? (next a)) : Staging committed bucket key? (call >>= next) :=
  fun origin => Ensures.bind (h origin) fun a => hnext a origin

theorem staging_of_grows {call : Call α} (h : ∀ w, Grows committed bucket key? w.tx (call.run w).2.tx) :
    Staging committed bucket key? call := by
  intro origin w hw
  have hcall : Grows committed bucket key? origin (call.run w).2.tx := Relation.ReflTransGen.trans hw (h w)
  revert hcall
  rcases call.run w with ⟨_ | a, w'⟩ <;> exact id

theorem Staging.isWritable_eq {call : Call α} {outcome : Except Error α} {w t : Work}
    (h : Staging committed bucket key? call) (hrun : call.run w = (outcome, t)) :
    t.tx.isWritable = w.tx.isWritable := by
  have hgrown := h w.tx w .refl
  rw [hrun] at hgrown
  cases outcome with
  | error e => exact Grows.isWritable_eq hgrown
  | ok a => exact Grows.isWritable_eq hgrown

/-! ## Parts that look -/

/-- A call that leaves the transaction as it is. -/
def KeepsTx (call : Call α) : Prop := ∀ w, (call.run w).2.tx = w.tx

theorem KeepsTx.bind {call : Call α} {next : α → Call β} (h : KeepsTx call) (hnext : ∀ a, KeepsTx (next a)) :
    KeepsTx (call >>= next) := by
  intro w
  have hkeeps := h w
  rw [Attempt.run_bind]
  revert hkeeps
  rcases call.run w with ⟨_ | a, w'⟩
  · exact id
  · intro hkeeps
    exact (hnext a w').trans hkeeps

theorem KeepsTx.staging {call : Call α} (h : KeepsTx call) : Staging committed bucket key? call :=
  staging_of_grows fun w => by
    rw [h w]

theorem staging_pure (a : α) : Staging committed bucket key? (pure a) := KeepsTx.staging fun _ => rfl

theorem staging_throw (e : Error) : Staging committed bucket key? (throw e : Call α) := KeepsTx.staging fun _ => rfl

theorem KeepsTx.tx_eq {call : Call α} {outcome : Except Error α} {w t : Work} (h : KeepsTx call)
    (hrun : call.run w = (outcome, t)) : t.tx = w.tx := by
  have hkeeps := h w
  rw [hrun] at hkeeps
  exact hkeeps

theorem keepsTx_now : KeepsTx now := fun _ => rfl

theorem keepsTx_checkOpen : KeepsTx checkOpen := by
  refine KeepsTx.bind (fun _ => rfl) fun w => ?_
  split <;> exact fun _ => rfl

theorem keepsTx_checkWritable : KeepsTx checkWritable := by
  refine keepsTx_checkOpen.bind fun _ => KeepsTx.bind (fun _ => rfl) fun w => ?_
  split <;> exact fun _ => rfl

theorem keepsTx_look (committed : Index) (bucket : String) (view : Store → Except Error α) :
    KeepsTx (look committed bucket view) := by
  refine KeepsTx.bind (fun _ => rfl) fun store => ?_
  cases store <;> exact fun _ => rfl

theorem keepsTx_requireBucket (committed : Index) (bucket : String) :
    KeepsTx (requireBucket committed bucket) := by
  refine keepsTx_checkOpen.bind fun _ => KeepsTx.bind (fun _ => rfl) fun store => ?_
  split <;> exact fun _ => rfl

/-- Whether a transaction sees a bucket, and a view of what it sees there answers `a`. -/
def Sees (committed : Index) (bucket : String) (view : Store → Except Error α) (a : α) (tx : Tx) : Prop :=
  ∃ store, tx.visible committed bucket = some store ∧ view store = .ok a

theorem run_look (view : Store → Except Error α) (w : Work) : (look committed bucket view).run w =
    (match w.tx.visible committed bucket with
      | none => .error .bucketNotFound
      | some store => view store, w) := by
  have hstore : (store? committed bucket).run w = (.ok (w.tx.visible committed bucket), w) := rfl
  rw [look, Attempt.run_bind_ok hstore]
  cases w.tx.visible committed bucket <;> rfl

theorem of_run_look {view : Store → Except Error α} {a : α} {w t : Work}
    (h : (look committed bucket view).run w = (.ok a, t)) : t = w ∧ w.tx.Sees committed bucket view a := by
  rw [run_look] at h
  cases hstore : w.tx.visible committed bucket with
  | none =>
    rw [hstore] at h
    cases h
  | some store =>
    rw [hstore] at h
    obtain ⟨hview, rfl⟩ := Prod.mk.inj h
    exact ⟨rfl, store, hstore, hview⟩

/-- A lookup that answers has seen what it answers. -/
theorem ensures_look {P E : Work → Prop} (hfails : ∀ w, P w → E w) (view : Store → Except Error α) :
    Ensures P (look committed bucket view) (fun a w => P w ∧ w.tx.Sees committed bucket view a) E := by
  intro w hw
  rw [run_look]
  cases hstore : w.tx.visible committed bucket with
  | none => exact hfails w hw
  | some store =>
    simp only
    cases hview : view store with
    | error e => exact hfails w hw
    | ok a => exact ⟨hw, store, hstore, hview⟩

/-! ## Parts that stage -/

theorem ensures_stageAt {command : Command} (habout : key? = some command.key) (timestamp : UInt64) :
    Ensures (fun w => Grown committed bucket key? origin w ∧
        command.Justified timestamp ((w.tx.visible committed bucket).getD ∅))
      (stageAt committed bucket command timestamp)
      (fun _ => Grown committed bucket key? origin) (Grown committed bucket key? origin) := by
  rintro ⟨tx, env⟩ ⟨hgrown, hjustified⟩
  cases tx with
  | reading => exact hgrown
  | closed => exact hgrown
  | writing draft =>
    have hcopy : command.Justified timestamp (copyOf committed bucket draft) := hjustified
    obtain ⟨count, copy, hrun⟩ := Command.apply_of_justified hcopy
    rw [run_stageAt_writing, hrun]
    exact Relation.ReflTransGen.tail hgrown (.stage habout hcopy hrun)

theorem ensures_stage {command : Command} (habout : key? = some command.key) :
    Ensures (fun w => Grown committed bucket key? origin w ∧
        ∀ second, command.Justified second ((w.tx.visible committed bucket).getD ∅))
      (stage committed bucket command) (fun _ => Grown committed bucket key? origin)
      (Grown committed bucket key? origin) := by
  rintro w ⟨hgrown, hjustified⟩
  have hnow : now.run w = (.ok w.env.second, ⟨w.tx, w.env.tick⟩) := rfl
  rw [stage, Attempt.run_bind_ok hnow]
  exact ensures_stageAt habout w.env.second ⟨w.tx, w.env.tick⟩ ⟨hgrown, hjustified w.env.second⟩

/-- A command that every store justifies can be staged without a lookup. -/
theorem staging_stage {command : Command} (habout : key? = some command.key)
    (h : ∀ second store, command.Justified second store) :
    Staging committed bucket key? (stage committed bucket command) := fun _ =>
  (ensures_stage habout).weaken (fun _ hw => ⟨hw, fun second => h second _⟩) fun _ _ hw => hw

/-- A command that is justified by what the last lookup has seen. -/
theorem ensures_stage_of_seen {view : Store → Except Error α} {a : α} {command : Command}
    (habout : key? = some command.key)
    (h : ∀ second store, view store = .ok a → command.Justified second store) :
    Ensures (fun w => Grown committed bucket key? origin w ∧ w.tx.Sees committed bucket view a)
      (stage committed bucket command) (fun _ => Grown committed bucket key? origin)
      (Grown committed bucket key? origin) := by
  refine (ensures_stage habout).weaken ?_ fun _ _ hw => hw
  rintro w ⟨hgrown, store, hstore, hview⟩
  refine ⟨hgrown, fun second => ?_⟩
  rw [hstore]
  exact h second store hview

theorem staging_look_bind {view : Store → Except Error α} {next : α → Call β}
    (hnext : ∀ a origin, Ensures (fun w => Grown committed bucket key? origin w ∧ w.tx.Sees committed bucket view a)
      (next a) (fun _ => Grown committed bucket key? origin) (Grown committed bucket key? origin)) :
    Staging committed bucket key? (look committed bucket view >>= next) := fun origin =>
  Ensures.bind (ensures_look (fun _ hw => hw) view) fun a => hnext a origin

theorem Staging.of_seen {call : Call β} (h : Staging committed bucket key? call) {view : Store → Except Error α}
    {a : α} :
    Ensures (fun w => Grown committed bucket key? origin w ∧ w.tx.Sees committed bucket view a) call
      (fun _ => Grown committed bucket key? origin) (Grown committed bucket key? origin) :=
  (h origin).weaken (fun _ hw => hw.1) fun _ _ hw => hw

/-- The expiry check stages a deletion or nothing. -/
theorem staging_checkExpire (key : Bytes) : Staging committed bucket (some key) (checkExpire committed bucket key) := by
  refine staging_of_grows fun ⟨tx, env⟩ => ?_
  cases hopen : tx.isClosed with
  | true =>
    obtain rfl := eq_closed hopen
    exact .refl
  | false =>
    cases hexpired : tx.SeesExpired committed bucket key env.second with
    | false =>
      rw [run_checkExpire_live hopen hexpired]
    | true =>
      obtain ⟨trace, hrun⟩ := run_checkExpire_expired hopen hexpired
      rw [hrun]
      exact Grows.evict hexpired

theorem staging_requireFresh (key : Bytes) :
    Staging committed bucket (some key) (requireFresh committed bucket key) := by
  refine (staging_checkExpire key).bind fun expired => ?_
  cases expired with
  | false => exact staging_pure ()
  | true => exact staging_throw .keyNotFound

theorem staging_checkRead (key : Bytes) : Staging committed bucket (some key) (checkRead committed bucket key) :=
  (keepsTx_requireBucket committed bucket).staging.bind fun _ => staging_requireFresh key

theorem staging_checkChange (key : Bytes) : Staging committed bucket (some key) (checkChange committed bucket key) :=
  keepsTx_checkWritable.staging.bind fun _ => staging_checkRead key

/-! ## Requests that look -/

theorem ensures_peek (side : Side) (key : Bytes) :
    Ensures (Grown committed bucket (some key) origin) (peek committed side bucket key)
      (fun value w => Grown committed bucket (some key) origin w ∧
        w.tx.Sees committed bucket (fun store => store.peek side key) value)
      (Grown committed bucket (some key) origin) :=
  Ensures.bind (staging_checkRead key origin) fun _ => ensures_look (fun _ hw => hw) _

theorem ensures_range (key : Bytes) (start stop : Int64) :
    Ensures (Grown committed bucket (some key) origin) (range committed bucket key start stop)
      (fun values w => Grown committed bucket (some key) origin w ∧
        w.tx.Sees committed bucket (fun store => store.range key start stop) values)
      (Grown committed bucket (some key) origin) :=
  Ensures.bind (staging_checkRead key origin) fun _ => ensures_look (fun _ hw => hw) _

theorem staging_length (key : Bytes) : Staging committed bucket (some key) (length committed bucket key) :=
  (staging_checkRead key).bind fun _ => (keepsTx_look committed bucket _).staging

theorem staging_peek (side : Side) (key : Bytes) :
    Staging committed bucket (some key) (peek committed side bucket key) :=
  (staging_checkRead key).bind fun _ => (keepsTx_look committed bucket _).staging

theorem staging_range (key : Bytes) (start stop : Int64) :
    Staging committed bucket (some key) (range committed bucket key start stop) :=
  (staging_checkRead key).bind fun _ => (keepsTx_look committed bucket _).staging

theorem keepsTx_ttl (committed : Index) (bucket : String) (key : Bytes) :
    KeepsTx (ttl committed bucket key) :=
  (keepsTx_requireBucket committed bucket).bind fun _ => keepsTx_now.bind fun _ =>
    keepsTx_look committed bucket _

theorem keepsTx_expiry (committed : Index) (bucket : String) (key : Bytes) :
    KeepsTx (expiry committed bucket key) :=
  (keepsTx_requireBucket committed bucket).bind fun _ _ => rfl

theorem keepsTx_keys (committed : Index) (bucket pattern : String) (last : Option Nat) :
    KeepsTx (keys committed bucket pattern last) :=
  (keepsTx_requireBucket committed bucket).bind fun _ _ => rfl

/-! ## Requests that change -/

theorem staging_pushEach (side : Side) {key : Bytes} (hkey : containsSeparator key = false)
    (values : List Bytes) : Staging committed bucket (some key) (pushEach committed side bucket key values) := by
  induction values with
  | nil => exact staging_pure ()
  | cons value values ih =>
    refine (staging_requireFresh key).bind fun _ => ?_
    have hpush : ∀ second store, (Command.push side key value).Justified second store := fun _ _ => hkey
    exact (staging_stage rfl hpush).bind fun _ => ih

theorem staging_push (side : Side) (key : Bytes) (values : List Bytes) :
    Staging committed bucket (some key) (push committed side bucket key values) := by
  refine keepsTx_checkWritable.staging.bind fun _ => ?_
  split
  · exact staging_throw .separatorViolation
  · rename_i hkey
    exact staging_pushEach side (Bool.eq_false_iff.mpr hkey) values

theorem staging_pop (side : Side) (key : Bytes) :
    Staging committed bucket (some key) (pop committed side bucket key) := by
  refine keepsTx_checkWritable.staging.bind fun _ origin => ?_
  refine Ensures.bind (ensures_peek side key) fun value => ?_
  exact Ensures.bind (ensures_stage_of_seen rfl fun _ _ => Command.justified_pop) fun _ =>
    staging_pure value origin

theorem staging_remove (key : Bytes) (count : Int64) (value : Bytes) :
    Staging committed bucket (some key) (remove committed bucket key count value) := by
  refine (staging_checkChange key).bind fun _ => staging_look_bind fun size origin => ?_
  split
  · exact (staging_throw .countOutOfRange).of_seen
  · rename_i hcount
    exact ensures_stage_of_seen rfl fun _ _ hlength => Command.justified_remove hlength hcount value

theorem staging_replace (key : Bytes) (index : Int64) (value : Bytes) :
    Staging committed bucket (some key) (replace committed bucket key index value) := by
  refine (staging_checkChange key).bind fun _ => (keepsTx_look committed bucket _).staging.bind fun _ => ?_
  refine staging_look_bind fun size origin => ?_
  split
  · exact (staging_throw .indexOutOfRange).of_seen
  · rename_i hindex
    exact Ensures.bind (ensures_stage_of_seen rfl fun _ _ hlength =>
      Command.justified_replace hlength hindex value) fun _ => staging_pure () origin

theorem staging_trim (key : Bytes) (start stop : Int64) :
    Staging committed bucket (some key) (trim committed bucket key start stop) := by
  refine (staging_checkChange key).bind fun _ =>
    (keepsTx_look committed bucket _).staging.bind fun _ origin => ?_
  refine Ensures.bind (ensures_range key start stop) fun _ => ?_
  exact Ensures.bind (ensures_stage_of_seen rfl fun _ _ => Command.justified_trim) fun _ =>
    staging_pure () origin

theorem staging_removeAt (key : Bytes) (indexes : List Int64) :
    Staging committed bucket (some key) (removeAt committed bucket key indexes) := by
  refine (staging_checkChange key).bind fun _ => staging_look_bind fun removable origin => ?_
  split
  · have hskip : KeepsTx (do emit (.nothingAddressed bucket); return 0 : Call Nat) := fun _ => rfl
    exact hskip.staging.of_seen
  · rename_i hsome
    exact Ensures.bind (ensures_stage_of_seen rfl fun _ _ hremovable =>
      Command.justified_removeAt hremovable hsome) fun _ => staging_pure removable origin

theorem staging_expire (key : Bytes) (ttl : UInt32) :
    Staging committed bucket (some key) (expire committed bucket key ttl) := by
  refine keepsTx_checkWritable.staging.bind fun _ => ?_
  refine (keepsTx_requireBucket committed bucket).staging.bind fun _ => ?_
  refine keepsTx_now.staging.bind fun second => staging_of_grows ?_
  rintro ⟨tx, env⟩
  cases tx with
  | reading => exact .refl
  | closed => exact .refl
  | writing draft =>
    rw [Attempt.run_bind_ok (run_onCopy_writing committed bucket draft env _), Attempt.run_bind]
    simp only [Attempt.run_modify]
    rw [run_stageAt_expire, run_stageAt_writing]
    exact .single (.stage rfl trivial rfl)

end Tx

/-- The key that a request is about, if it is about one. -/
def Request.key? : Request → Option Bytes
  | .push _ key _ | .pop _ key | .peek _ key | .length key | .range key _ _ | .remove key _ _
  | .replace key _ _ | .trim key _ _ | .removeAt key _ | .expire key _ | .checkExpire key | .ttl key
  | .expiry key => some key
  | .keys .. => none

/-- Whatever a request answers, the transaction has grown, by commands about the key of the request. -/
theorem Request.grows_perform (committed : Index) (bucket : String) (request : Request) (w : Tx.Work) :
    Tx.Grows committed bucket request.key? w.tx ((request.perform committed bucket).run w).2.tx := by
  have hstaging : Tx.Staging committed bucket request.key? (request.perform committed bucket) := by
    cases request with
    | push side key values => exact (Tx.staging_push side key values).bind fun _ => Tx.staging_pure _
    | pop side key => exact (Tx.staging_pop side key).bind fun _ => Tx.staging_pure _
    | peek side key => exact (Tx.staging_peek side key).bind fun _ => Tx.staging_pure _
    | length key => exact (Tx.staging_length key).bind fun _ => Tx.staging_pure _
    | range key start stop => exact (Tx.staging_range key start stop).bind fun _ => Tx.staging_pure _
    | remove key count value => exact (Tx.staging_remove key count value).bind fun _ => Tx.staging_pure _
    | replace key index value => exact (Tx.staging_replace key index value).bind fun _ => Tx.staging_pure _
    | trim key start stop => exact (Tx.staging_trim key start stop).bind fun _ => Tx.staging_pure _
    | removeAt key indexes => exact (Tx.staging_removeAt key indexes).bind fun _ => Tx.staging_pure _
    | expire key ttl => exact (Tx.staging_expire key ttl).bind fun _ => Tx.staging_pure _
    | checkExpire key => exact (Tx.staging_checkExpire key).bind fun _ => Tx.staging_pure _
    | ttl key => exact (Tx.keepsTx_ttl committed bucket key).staging.bind fun _ => Tx.staging_pure _
    | expiry key => exact (Tx.keepsTx_expiry committed bucket key).staging.bind fun _ => Tx.staging_pure _
    | keys pattern last =>
      exact (Tx.keepsTx_keys committed bucket pattern last).staging.bind fun _ => Tx.staging_pure _
  exact (hstaging w.tx).state .refl

end DurableLists

import DurableLists.Proofs.Tx.Shows

/-!
# Branches that are not taken

The operations have branches for what their checks are to rule out: a command that cannot be staged after its checks
have passed, a bucket that is missing where it was found before, a removal that takes out another number of elements
than was counted. `Tx.Mishaps` says what is done in each of these branches, `Tx.Mishaps.usual` what the operations do
there (`Request.perform_usual`).

A transaction that writes comes to none of the branches: whatever is put there, every operation answers the same and
leaves the same (`Tx.Mishaps.run_perform`). Each operation is compared with itself step by step
(`Attempt.run_bind_congr`); what a check has seen of the bucket is still there at the steps behind it.
-/

set_option autoImplicit false

namespace DurableLists

namespace Attempt

variable {σ α β : Type}

theorem ext_run {call other : Attempt σ α} (h : ∀ s, call.run s = other.run s) : call = other := funext h

/-- Two sequences run alike if their first calls do, and what follows does on what these leave. -/
theorem run_bind_congr {call other : Attempt σ α} {next next' : α → Attempt σ β} {s : σ}
    (hcall : call.run s = other.run s)
    (hnext : ∀ a t, other.run s = (.ok a, t) → (next a).run t = (next' a).run t) :
    run (call >>= next) s = run (other >>= next') s := by
  rw [run_bind, run_bind, hcall]
  cases hother : other.run s with
  | mk outcome t =>
    cases outcome with
    | error e => rfl
    | ok a => exact hnext a t hother

end Attempt

namespace Tx

/-- What is done in the branches that the checks of an operation are to rule out. -/
structure Mishaps where
  /-- A command that has come to be staged cannot be. -/
  unstaged : Command → UInt64 → Error → Call Nat
  /-- The deletion of an expired list cannot be staged. -/
  undeleted : Error → Call Unit
  /-- A bucket that has been found is missing. -/
  lost : (α : Type) → Call α
  /-- A removal has taken out `removed` elements, not the `counted` ones. -/
  miscounted : (removed counted : Nat) → Call Unit

namespace Mishaps

/-- What the operations on a bucket do in these branches. -/
def usual (bucket : String) : Mishaps where
  unstaged _ _ cause := throw cause
  undeleted cause := emit (.tombstoneFailed bucket cause)
  lost _ := throw .bucketNotFound
  miscounted _ _ := return ()

section

variable (m : Mishaps) (committed : Index)

/-! ## Operations -/

def look {α : Type} (bucket : String) (view : Store → Except Error α) : Call α := do
  match ← store? committed bucket with
  | none => m.lost α
  | some store => Attempt.ofExcept (view store)

def stageAt (bucket : String) (command : Command) (timestamp : UInt64) : Call Nat := do
  match ← Attempt.outcome (Tx.stageAt committed bucket command timestamp) with
  | .ok count => return count
  | .error cause => m.unstaged command timestamp cause

def stage (bucket : String) (command : Command) : Call Nat := do
  m.stageAt committed bucket command (← now)

def checkExpire (bucket : String) (key : Bytes) : Call Bool := do
  checkOpen
  let second ← now
  let expired := (← store? committed bucket).any fun store => store.isExpired key second
  if !expired then return false
  if (← get).tx.isWritable then
    match ← Attempt.outcome (Tx.stageAt committed bucket (.delete key) second) with
    | .ok _ => emit (.tombstoneStaged bucket)
    | .error cause => m.undeleted cause
  return true

def requireFresh (bucket : String) (key : Bytes) : Call Unit := do
  if ← m.checkExpire committed bucket key then throw .keyNotFound

def checkRead (bucket : String) (key : Bytes) : Call Unit := do
  requireBucket committed bucket
  m.requireFresh committed bucket key

def checkChange (bucket : String) (key : Bytes) : Call Unit := do
  checkWritable
  m.checkRead committed bucket key

def requireKey (bucket : String) (key : Bytes) : Call Unit :=
  m.look committed bucket fun store => if store.containsKey key then .ok () else .error .keyNotFound

def peek (side : Side) (bucket : String) (key : Bytes) : Call Bytes := do
  m.checkRead committed bucket key
  m.look committed bucket fun store => store.peek side key

def length (bucket : String) (key : Bytes) : Call Nat := do
  m.checkRead committed bucket key
  m.look committed bucket fun store => store.length key

def range (bucket : String) (key : Bytes) (start stop : Int64) : Call (List Bytes) := do
  m.checkRead committed bucket key
  m.look committed bucket fun store => store.range key start stop

def ttl (bucket : String) (key : Bytes) : Call UInt32 := do
  requireBucket committed bucket
  let second ← now
  m.look committed bucket fun store => store.ttl key second

def pushEach (side : Side) (bucket : String) (key : Bytes) : List Bytes → Call Unit
  | [] => return ()
  | value :: values => do
    m.requireFresh committed bucket key
    let _ ← m.stage committed bucket (.push side key value)
    pushEach side bucket key values

def push (side : Side) (bucket : String) (key : Bytes) (values : List Bytes) : Call Unit := do
  checkWritable
  if containsSeparator key then throw .separatorViolation
  m.pushEach committed side bucket key values

def pop (side : Side) (bucket : String) (key : Bytes) : Call Bytes := do
  checkWritable
  let value ← m.peek committed side bucket key
  let _ ← m.stage committed bucket (.pop side key value)
  return value

def remove (bucket : String) (key : Bytes) (count : Int64) (value : Bytes) : Call Nat := do
  m.checkChange committed bucket key
  let size ← m.look committed bucket fun store => store.length key
  if size < count.toInt.natAbs then throw .countOutOfRange
  m.stage committed bucket (.remove key count value)

def replace (bucket : String) (key : Bytes) (index : Int64) (value : Bytes) : Call Unit := do
  m.checkChange committed bucket key
  m.requireKey committed bucket key
  let size ← m.look committed bucket fun store => store.length key
  if index.toInt < 0 ∨ size ≤ index.toInt then throw .indexOutOfRange
  let _ ← m.stage committed bucket (.replace key index value)
  return ()

def trim (bucket : String) (key : Bytes) (start stop : Int64) : Call Unit := do
  m.checkChange committed bucket key
  m.requireKey committed bucket key
  let _ ← m.range committed bucket key start stop
  let _ ← m.stage committed bucket (.trim key start stop)
  return ()

def removeAt (bucket : String) (key : Bytes) (indexes : List Int64) : Call Nat := do
  m.checkChange committed bucket key
  let indexes := IndexSet.normalize indexes
  let removable ← m.look committed bucket fun store => store.removableAt key indexes
  if removable = 0 then
    emit (.nothingAddressed bucket)
    return 0
  let removed ← m.stage committed bucket (.removeAt key indexes)
  if removed ≠ removable then m.miscounted removed removable
  return removable

def expire (bucket : String) (key : Bytes) (ttl : UInt32) : Call Unit := do
  checkWritable
  requireBucket committed bucket
  let second ← now
  onCopy committed bucket (modify fun store => store.putExpiry key ⟨ttl, second⟩)
  let _ ← m.stageAt committed bucket (.expire key ttl) second
  return ()

/-- A request with given things done in the branches that its checks are to rule out. -/
def perform (bucket : String) : Request → Call Reply
  | .push side key values => do
    m.push committed side bucket key values
    return .done
  | .pop side key => return .value (← m.pop committed side bucket key)
  | .peek side key => return .value (← m.peek committed side bucket key)
  | .length key => return .count (← m.length committed bucket key)
  | .range key start stop => return .values (← m.range committed bucket key start stop)
  | .remove key count value => return .count (← m.remove committed bucket key count value)
  | .replace key index value => do
    m.replace committed bucket key index value
    return .done
  | .trim key start stop => do
    m.trim committed bucket key start stop
    return .done
  | .removeAt key indexes => return .count (← m.removeAt committed bucket key indexes)
  | .expire key seconds => do
    m.expire committed bucket key seconds
    return .done
  | .checkExpire key => return .flag (← m.checkExpire committed bucket key)
  | .ttl key => return .seconds (← m.ttl committed bucket key)
  | .expiry key => return .expiry (← Tx.expiry committed bucket key)
  | .keys pattern last => return .values (← Tx.keys committed bucket pattern last)

end

/-! ## Where the branches are -/

section

variable (m : Mishaps) (committed : Index) (bucket : String)

theorem run_look_eq {α : Type} (view : Store → Except Error α) (w : Work) :
    (m.look committed bucket view).run w =
      match w.tx.visible committed bucket with
      | none => (m.lost α).run w
      | some store => (view store, w) := by
  have hfound : (store? committed bucket).run w = (.ok (w.tx.visible committed bucket), w) := rfl
  rw [look, Attempt.run_bind_ok hfound]
  cases w.tx.visible committed bucket <;> rfl

theorem run_stageAt_eq (command : Command) (timestamp : UInt64) (w : Work) :
    (m.stageAt committed bucket command timestamp).run w =
      match (Tx.stageAt committed bucket command timestamp).run w with
      | (.ok count, t) => (.ok count, t)
      | (.error cause, t) => (m.unstaged command timestamp cause).run t := by
  rw [stageAt, Attempt.run_bind, Attempt.run_outcome]
  rcases (Tx.stageAt committed bucket command timestamp).run w with ⟨_ | count, t⟩ <;> rfl

end

/-! ## The operations as they are -/

variable (committed : Index) (bucket : String)

theorem stageAt_usual : (usual bucket).stageAt committed bucket = Tx.stageAt committed bucket := by
  funext command timestamp
  refine Attempt.ext_run fun w => ?_
  rw [run_stageAt_eq]
  rcases (Tx.stageAt committed bucket command timestamp).run w with ⟨_ | count, t⟩ <;> rfl

theorem stage_usual : (usual bucket).stage committed bucket = Tx.stage committed bucket := by
  funext command
  rw [stage, stageAt_usual]
  rfl

theorem pushEach_usual (side : Side) (key : Bytes) (values : List Bytes) :
    (usual bucket).pushEach committed side bucket key values = Tx.pushEach committed side bucket key values := by
  induction values with
  | nil => rfl
  | cons value values ih =>
    rw [pushEach, stage_usual, ih]
    rfl

theorem removeAt_usual (key : Bytes) (indexes : List Int64) :
    (usual bucket).removeAt committed bucket key indexes = Tx.removeAt committed bucket key indexes := by
  have hcounted (removed removable : Nat) : (do
      if removed ≠ removable then (usual bucket).miscounted removed removable
      return removable : Call Nat) = return removable := by
    split <;> rfl
  rw [removeAt, stage_usual]
  simp only [hcounted]
  rfl

/-- With what is usually done in the branches, a request is what it is. -/
theorem perform_usual (request : Request) :
    (usual bucket).perform committed bucket request = request.perform committed bucket := by
  cases request with
  | push side key values =>
    rw [perform, push, pushEach_usual]
    rfl
  | pop side key =>
    rw [perform, pop, stage_usual]
    rfl
  | remove key count value =>
    rw [perform, remove, stage_usual]
    rfl
  | replace key index value =>
    rw [perform, replace, stage_usual]
    rfl
  | trim key start stop =>
    rw [perform, trim, stage_usual]
    rfl
  | removeAt key indexes =>
    rw [perform, removeAt_usual]
    rfl
  | expire key ttl =>
    rw [perform, expire, stageAt_usual]
    rfl
  | peek | length | range | checkExpire | ttl | expiry | keys => rfl

end Mishaps

/-! ## What checks leave -/

section

variable {α : Type} {committed : Index} {bucket : String} {key : Bytes} {w t : Work}
  {view : Store → Except Error α} {a : α}

/-- Whether a transaction writes and sees a bucket. -/
structure Sights (committed : Index) (bucket : String) (w : Work) : Prop where
  writes : w.tx.isWritable = true
  seen : ∃ store, w.tx.visible committed bucket = some store

theorem sights_of_checkRead (hwrites : w.tx.isWritable = true)
    (h : (checkRead committed bucket key).run w = (.ok (), t)) : Sights committed bucket t := by
  obtain ⟨-, -, rfl⟩ := of_run_checkRead h
  obtain ⟨_, w₁, hbucket, -⟩ := Attempt.of_run_bind h
  exact ⟨hwrites, (of_run_requireBucket hbucket).2.2⟩

theorem sights_of_checkChange (hwrites : w.tx.isWritable = true)
    (h : (checkChange committed bucket key).run w = (.ok (), t)) : Sights committed bucket t := by
  obtain ⟨_, w₁, hcheck, hread⟩ := Attempt.of_run_bind h
  obtain rfl := of_run_checkWritable hcheck
  exact sights_of_checkRead hwrites hread

/-- A read that answers leaves the bucket in which it has seen its answer. -/
theorem sees_of_read (hwrites : w.tx.isWritable = true)
    (h : Attempt.run (do checkRead committed bucket key; look committed bucket view) w = (.ok a, t)) :
    t.tx.isWritable = true ∧ t.tx.Sees committed bucket view a := by
  obtain ⟨_, w₁, hcheck, hlook⟩ := Attempt.of_run_bind h
  obtain ⟨rfl, hsees⟩ := of_run_look hlook
  exact ⟨(sights_of_checkRead hwrites hcheck).writes, hsees⟩

/-! ## Removals -/

/-- A removal by position takes out as many elements as have been counted. -/
theorem removed_eq (hwrites : w.tx.isWritable = true) {indexes : List Int64} {removable removed : Nat}
    (hsees : w.tx.Sees committed bucket (fun store => store.removableAt key (IndexSet.normalize indexes)) removable)
    (h : (stage committed bucket (.removeAt key (IndexSet.normalize indexes))).run w = (.ok removed, t)) :
    removed = removable := by
  obtain ⟨tx, env⟩ := w
  obtain ⟨draft, rfl⟩ := exists_draft hwrites
  obtain ⟨store, hstore, hremovable⟩ := hsees
  obtain ⟨items, hlist⟩ := Command.list?_of_removableAt hremovable
  have hcounted := (Store.removableAt_normalize hlist indexes).symm.trans hremovable
  rw [stage, Attempt.run_bind_ok run_now, run_stageAt_writing, copyOf_eq hstore,
    Store.apply_removeAt hlist] at h
  cases hcounted
  cases h
  exact Nat.sub_eq_of_eq_add (ListOp.length_keep_add (ListOp.isListed indexes) items).symm

end

/-! ## Branches that are not taken -/

namespace Mishaps

variable {α : Type} {committed : Index} {bucket : String} {key : Bytes} {w : Work} (m : Mishaps)

theorem run_look (h : Sights committed bucket w) (view : Store → Except Error α) :
    (m.look committed bucket view).run w = (Tx.look committed bucket view).run w := by
  obtain ⟨store, hstore⟩ := h.seen
  rw [run_look_eq, Tx.run_look, hstore]

theorem run_stageAt (hwrites : w.tx.isWritable = true) {command : Command} {timestamp : UInt64}
    (hjustified : command.Justified timestamp ((w.tx.visible committed bucket).getD ∅)) :
    (m.stageAt committed bucket command timestamp).run w =
      (Tx.stageAt committed bucket command timestamp).run w := by
  obtain ⟨tx, env⟩ := w
  obtain ⟨draft, rfl⟩ := exists_draft hwrites
  obtain ⟨count, copy, happly⟩ := Command.apply_of_justified hjustified
  have hstage := run_stageAt_writing committed bucket draft env command timestamp
  rw [copyOf, happly] at hstage
  rw [run_stageAt_eq, hstage]

theorem run_stage (hwrites : w.tx.isWritable = true) {command : Command}
    (hjustified : ∀ second, command.Justified second ((w.tx.visible committed bucket).getD ∅)) :
    (m.stage committed bucket command).run w = (Tx.stage committed bucket command).run w := by
  have hnow : now.run w = (.ok w.env.second, ⟨w.tx, w.env.tick⟩) := rfl
  rw [stage, Tx.stage, Attempt.run_bind_ok hnow, Attempt.run_bind_ok hnow]
  exact m.run_stageAt (w := ⟨w.tx, w.env.tick⟩) hwrites (hjustified _)

/-- A command that is justified by what a transaction has seen. -/
theorem run_stage_of_sees (hwrites : w.tx.isWritable = true) {view : Store → Except Error α} {a : α}
    (hsees : w.tx.Sees committed bucket view a) {command : Command}
    (hjustified : ∀ second store, view store = .ok a → command.Justified second store) :
    (m.stage committed bucket command).run w = (Tx.stage committed bucket command).run w := by
  obtain ⟨store, hstore, hview⟩ := hsees
  refine m.run_stage hwrites fun second => ?_
  rw [hstore]
  exact hjustified second store hview

/-! ## Checks -/

theorem run_checkExpire (hwrites : w.tx.isWritable = true) (key : Bytes) :
    (m.checkExpire committed bucket key).run w = (Tx.checkExpire committed bucket key).run w := by
  obtain ⟨tx, env⟩ := w
  have hopen := isClosed_of_isWritable hwrites
  rw [checkExpire, Tx.checkExpire, Attempt.run_bind_ok (run_checkOpen hopen),
    Attempt.run_bind_ok (run_checkOpen hopen), Attempt.run_bind_ok run_now, Attempt.run_bind_ok run_now,
    Attempt.run_bind_ok run_store?, Attempt.run_bind_ok run_store?]
  cases hexpired : tx.SeesExpired committed bucket key env.second with
  | false =>
    rw [SeesExpired] at hexpired
    simp only [hexpired]
    rfl
  | true =>
    obtain ⟨draft, rfl⟩ := exists_draft hwrites
    obtain ⟨count, copy, happly⟩ := Command.apply_of_justified (justified_evict hexpired)
    have hstage := run_stageAt_writing committed bucket draft env.tick (.delete key) env.second
    rw [happly] at hstage
    rw [SeesExpired] at hexpired
    simp only [hexpired, Bool.not_true, Bool.false_eq_true, if_false]
    rw [Attempt.run_bind_ok (Attempt.run_get _), Attempt.run_bind_ok (Attempt.run_get _)]
    simp only [isWritable, if_true]
    rw [Attempt.run_bind, Attempt.run_bind, Attempt.run_outcome, hstage]

theorem run_requireFresh (hwrites : w.tx.isWritable = true) (key : Bytes) :
    (m.requireFresh committed bucket key).run w = (Tx.requireFresh committed bucket key).run w :=
  Attempt.run_bind_congr (m.run_checkExpire hwrites key) fun _ _ _ => rfl

theorem run_checkRead (hwrites : w.tx.isWritable = true) (key : Bytes) :
    (m.checkRead committed bucket key).run w = (Tx.checkRead committed bucket key).run w := by
  refine Attempt.run_bind_congr rfl fun _ t hbucket => ?_
  obtain ⟨-, rfl, -⟩ := of_run_requireBucket hbucket
  exact m.run_requireFresh hwrites key

theorem run_checkChange (hwrites : w.tx.isWritable = true) (key : Bytes) :
    (m.checkChange committed bucket key).run w = (Tx.checkChange committed bucket key).run w := by
  refine Attempt.run_bind_congr rfl fun _ t hcheck => ?_
  obtain rfl := of_run_checkWritable hcheck
  exact m.run_checkRead hwrites key

theorem run_read (hwrites : w.tx.isWritable = true) (key : Bytes) (view : Store → Except Error α) :
    Attempt.run (do m.checkRead committed bucket key; m.look committed bucket view) w =
      Attempt.run (do Tx.checkRead committed bucket key; Tx.look committed bucket view) w :=
  Attempt.run_bind_congr (m.run_checkRead hwrites key) fun _ _ hcheck =>
    m.run_look (sights_of_checkRead hwrites hcheck) view

/-! ## Operations -/

theorem run_ttl (hwrites : w.tx.isWritable = true) (key : Bytes) :
    (m.ttl committed bucket key).run w = (Tx.ttl committed bucket key).run w := by
  refine Attempt.run_bind_congr rfl fun _ t hbucket => ?_
  obtain ⟨-, rfl, hseen⟩ := of_run_requireBucket hbucket
  refine Attempt.run_bind_congr rfl fun second u hnow => ?_
  have hsights : Sights committed bucket u := by
    refine ⟨?_, ?_⟩
    · rw [keepsTx_now.tx_eq hnow]
      exact hwrites
    · rw [keepsTx_now.tx_eq hnow]
      exact hseen
  exact m.run_look hsights _

theorem run_pushEach (hwrites : w.tx.isWritable = true) (side : Side) {key : Bytes}
    (hkey : containsSeparator key = false) (values : List Bytes) :
    (m.pushEach committed side bucket key values).run w = (Tx.pushEach committed side bucket key values).run w := by
  induction values generalizing w with
  | nil => rfl
  | cons value values ih =>
    have hpush : ∀ second store, (Command.push side key value).Justified second store := fun _ _ => hkey
    refine Attempt.run_bind_congr (m.run_requireFresh hwrites key) fun _ t hfresh => ?_
    have hwrites' := ((staging_requireFresh key).isWritable_eq hfresh).trans hwrites
    refine Attempt.run_bind_congr (m.run_stage hwrites' fun second => hpush second _) fun _ u hstage => ?_
    exact ih (((staging_stage rfl hpush).isWritable_eq hstage).trans hwrites')

theorem run_push (hwrites : w.tx.isWritable = true) (side : Side) (key : Bytes) (values : List Bytes) :
    (m.push committed side bucket key values).run w = (Tx.push committed side bucket key values).run w := by
  rw [push, Tx.push]
  refine Attempt.run_bind_congr rfl fun _ t hcheck => ?_
  obtain rfl := of_run_checkWritable hcheck
  cases hkey : containsSeparator key with
  | true =>
    simp only [if_true]
    rw [Attempt.run_bind_error (Attempt.run_throw _ _), Attempt.run_bind_error (Attempt.run_throw _ _)]
  | false =>
    simp only [Bool.false_eq_true, if_false]
    exact m.run_pushEach hwrites side hkey values

theorem run_pop (hwrites : w.tx.isWritable = true) (side : Side) (key : Bytes) :
    (m.pop committed side bucket key).run w = (Tx.pop committed side bucket key).run w := by
  refine Attempt.run_bind_congr rfl fun _ t hcheck => ?_
  obtain rfl := of_run_checkWritable hcheck
  refine Attempt.run_bind_congr (m.run_read hwrites key _) fun value u hpeek => ?_
  obtain ⟨hwrites', hsees⟩ := sees_of_read hwrites hpeek
  exact Attempt.run_bind_congr (m.run_stage_of_sees hwrites' hsees fun _ _ => Command.justified_pop) fun _ _ _ => rfl

theorem run_remove (hwrites : w.tx.isWritable = true) (key : Bytes) (count : Int64) (value : Bytes) :
    (m.remove committed bucket key count value).run w = (Tx.remove committed bucket key count value).run w := by
  refine Attempt.run_bind_congr (m.run_checkChange hwrites key) fun _ t hcheck => ?_
  have hsights := sights_of_checkChange hwrites hcheck
  refine Attempt.run_bind_congr (m.run_look hsights _) fun size u hlook => ?_
  obtain ⟨rfl, hsees⟩ := of_run_look hlook
  by_cases hcount : size < count.toInt.natAbs
  · simp only [hcount, if_true]
    rfl
  · simp only [hcount, if_false]
    exact m.run_stage_of_sees hsights.writes hsees fun _ _ hlength => Command.justified_remove hlength hcount value

theorem run_replace (hwrites : w.tx.isWritable = true) (key : Bytes) (index : Int64) (value : Bytes) :
    (m.replace committed bucket key index value).run w = (Tx.replace committed bucket key index value).run w := by
  refine Attempt.run_bind_congr (m.run_checkChange hwrites key) fun _ t hcheck => ?_
  have hsights := sights_of_checkChange hwrites hcheck
  refine Attempt.run_bind_congr (m.run_look hsights _) fun _ u hkey => ?_
  obtain ⟨rfl, -⟩ := of_run_look hkey
  refine Attempt.run_bind_congr (m.run_look hsights _) fun size v hlook => ?_
  obtain ⟨rfl, hsees⟩ := of_run_look hlook
  by_cases hindex : index.toInt < 0 ∨ size ≤ index.toInt
  · simp only [hindex, if_true]
    rfl
  · simp only [hindex, if_false]
    exact Attempt.run_bind_congr (m.run_stage_of_sees hsights.writes hsees fun _ _ hlength =>
      Command.justified_replace hlength hindex value) fun _ _ _ => rfl

theorem run_trim (hwrites : w.tx.isWritable = true) (key : Bytes) (start stop : Int64) :
    (m.trim committed bucket key start stop).run w = (Tx.trim committed bucket key start stop).run w := by
  refine Attempt.run_bind_congr (m.run_checkChange hwrites key) fun _ t hcheck => ?_
  have hsights := sights_of_checkChange hwrites hcheck
  refine Attempt.run_bind_congr (m.run_look hsights _) fun _ u hkey => ?_
  obtain ⟨rfl, -⟩ := of_run_look hkey
  refine Attempt.run_bind_congr (m.run_read hsights.writes key _) fun found v hrange => ?_
  obtain ⟨hwrites', hsees⟩ := sees_of_read hsights.writes hrange
  exact Attempt.run_bind_congr (m.run_stage_of_sees hwrites' hsees fun _ _ => Command.justified_trim) fun _ _ _ => rfl

theorem run_removeAt (hwrites : w.tx.isWritable = true) (key : Bytes) (indexes : List Int64) :
    (m.removeAt committed bucket key indexes).run w = (Tx.removeAt committed bucket key indexes).run w := by
  refine Attempt.run_bind_congr (m.run_checkChange hwrites key) fun _ t hcheck => ?_
  have hsights := sights_of_checkChange hwrites hcheck
  refine Attempt.run_bind_congr (m.run_look hsights _) fun removable u hlook => ?_
  obtain ⟨rfl, hsees⟩ := of_run_look hlook
  by_cases hnone : removable = 0
  · simp only [hnone, if_true]
  · simp only [hnone, if_false]
    refine Attempt.run_bind_congr (m.run_stage_of_sees hsights.writes hsees fun _ _ hremovable =>
      Command.justified_removeAt hremovable hnone) fun removed v hstage => ?_
    have hremoved := removed_eq hsights.writes hsees hstage
    simp only [hremoved, ne_eq, not_true_eq_false, if_false]

theorem run_expire (hwrites : w.tx.isWritable = true) (key : Bytes) (ttl : UInt32) :
    (m.expire committed bucket key ttl).run w = (Tx.expire committed bucket key ttl).run w := by
  refine Attempt.run_bind_congr rfl fun _ t hcheck => ?_
  obtain rfl := of_run_checkWritable hcheck
  refine Attempt.run_bind_congr rfl fun _ u hbucket => ?_
  obtain ⟨-, rfl, -⟩ := of_run_requireBucket hbucket
  refine Attempt.run_bind_congr rfl fun second v hnow => ?_
  refine Attempt.run_bind_congr rfl fun _ x hcopy => ?_
  have hwrites' : x.tx.isWritable = true := by
    obtain ⟨draft, hdraft⟩ := exists_draft ((congrArg isWritable (keepsTx_now.tx_eq hnow)).trans hwrites)
    obtain ⟨tx, env⟩ := v
    cases hdraft
    rw [run_onCopy_writing] at hcopy
    cases hcopy
    rfl
  exact Attempt.run_bind_congr (m.run_stageAt hwrites' trivial) fun _ _ _ => rfl

/-- A transaction that writes comes to none of the branches that its checks are to rule out. -/
theorem run_perform (hwrites : w.tx.isWritable = true) (request : Request) :
    (m.perform committed bucket request).run w = (request.perform committed bucket).run w := by
  cases request with
  | push side key values => exact Attempt.run_bind_congr (m.run_push hwrites side key values) fun _ _ _ => rfl
  | pop side key => exact Attempt.run_bind_congr (m.run_pop hwrites side key) fun _ _ _ => rfl
  | peek side key => exact Attempt.run_bind_congr (m.run_read hwrites key _) fun _ _ _ => rfl
  | length key => exact Attempt.run_bind_congr (m.run_read hwrites key _) fun _ _ _ => rfl
  | range key start stop => exact Attempt.run_bind_congr (m.run_read hwrites key _) fun _ _ _ => rfl
  | remove key count value => exact Attempt.run_bind_congr (m.run_remove hwrites key count value) fun _ _ _ => rfl
  | replace key index value => exact Attempt.run_bind_congr (m.run_replace hwrites key index value) fun _ _ _ => rfl
  | trim key start stop => exact Attempt.run_bind_congr (m.run_trim hwrites key start stop) fun _ _ _ => rfl
  | removeAt key indexes => exact Attempt.run_bind_congr (m.run_removeAt hwrites key indexes) fun _ _ _ => rfl
  | expire key seconds => exact Attempt.run_bind_congr (m.run_expire hwrites key seconds) fun _ _ _ => rfl
  | checkExpire key => exact Attempt.run_bind_congr (m.run_checkExpire hwrites key) fun _ _ _ => rfl
  | ttl key => exact Attempt.run_bind_congr (m.run_ttl hwrites key) fun _ _ _ => rfl
  | expiry key => rfl
  | keys pattern last => rfl

end Mishaps

end Tx

/-- The checks of a request suffice. Its branches for a command that cannot be staged, for a deletion that cannot be
staged, for a bucket that has gone missing and for a removal that was miscounted might do anything: a transaction
that writes would answer the same and be left the same, at any readings of the clock. What it has changed in its
copies then, it has changed by commands that it has kept records of. -/
theorem Request.checks_suffice (committed : Index) (bucket : String) (request : Request) :
    (Tx.Mishaps.usual bucket).perform committed bucket request = request.perform committed bucket ∧
    ∀ (m : Tx.Mishaps) (draft : Draft) (env : Env),
      (m.perform committed bucket request).run ⟨.writing draft, env⟩ =
        (request.perform committed bucket).run ⟨.writing draft, env⟩ ∧
      Tx.Grows committed bucket request.key? (.writing draft)
        ((request.perform committed bucket).run ⟨.writing draft, env⟩).2.tx :=
  ⟨Tx.Mishaps.perform_usual committed bucket request, fun m draft env =>
    ⟨m.run_perform rfl request, request.grows_perform committed bucket ⟨.writing draft, env⟩⟩⟩

end DurableLists

import DurableLists.Proofs.Tx.Lacks

/-!
# What a request stages, exactly

`Request.Staged` lists the commands that each request has staged when it has brought a reply. At a clock that stands, a
request about a list that has not expired either brings a reply and has staged these commands, or fails and leaves the
transaction as it was (`Request.exact_perform`): its checks and lookups change nothing, a command that the last lookup
justifies is staged without fail, and a push, which stages a command for each value, meets a list that stays live.
-/

set_option autoImplicit false

namespace DurableLists

/-! ## Commands of requests -/

/-- The commands that a request has staged in a transaction that writes, by the reply that it has brought. -/
inductive Request.Staged : Request → Reply → List Command → Prop where
  | push (side : Side) (key : Bytes) (values : List Bytes) :
      Staged (.push side key values) .done (values.map fun value => .push side key value)
  | pop (side : Side) (key value : Bytes) : Staged (.pop side key) (.value value) [.pop side key value]
  | peek (side : Side) (key value : Bytes) : Staged (.peek side key) (.value value) []
  | length (key : Bytes) (size : Nat) : Staged (.length key) (.count size) []
  | range (key : Bytes) (start stop : Int64) (values : List Bytes) :
      Staged (.range key start stop) (.values values) []
  | remove (key : Bytes) (count : Int64) (value : Bytes) (removed : Nat) :
      Staged (.remove key count value) (.count removed) [.remove key count value]
  | replace (key : Bytes) (index : Int64) (value : Bytes) :
      Staged (.replace key index value) .done [.replace key index value]
  | trim (key : Bytes) (start stop : Int64) : Staged (.trim key start stop) .done [.trim key start stop]
  | removeNone (key : Bytes) (indexes : List Int64) : Staged (.removeAt key indexes) (.count 0) []
  | removeSome (key : Bytes) (indexes : List Int64) {removed : Nat} (some : 0 < removed) :
      Staged (.removeAt key indexes) (.count removed) [.removeAt key (IndexSet.normalize indexes)]
  | expire (key : Bytes) (ttl : UInt32) : Staged (.expire key ttl) .done [.expire key ttl]
  | live (key : Bytes) : Staged (.checkExpire key) (.flag false) []
  | expired (key : Bytes) : Staged (.checkExpire key) (.flag true) [.delete key]
  | ttl (key : Bytes) (seconds : UInt32) : Staged (.ttl key) (.seconds seconds) []
  | expiry (key : Bytes) (found : Option Expiry) : Staged (.expiry key) (.expiry found) []
  | keys (pattern : String) (last : Option Nat) (found : List Bytes) : Staged (.keys pattern last) (.values found) []

namespace Tx

open Attempt

variable {α β : Type} {committed : Index} {bucket : String} {key : Bytes} {now : UInt64} {origin tx : Tx}

/-- The records of commands that are staged at one second. -/
def recordsOf (bucket : String) (now : UInt64) (commands : List Command) : List Record :=
  commands.map fun command => Record.ofCommand bucket command now

/-- Whether a transaction at work is still as it was, and its clock stands. -/
def Held (origin : Tx) (now : UInt64) (w : Work) : Prop := w.tx = origin ∧ w.env.Stands now

/-- A call that leaves a transaction as it was if it fails, and if it answers, has staged commands that belong to the
answer. -/
def Exact (bucket : String) (origin : Tx) (now : UInt64) (call : Call α) (staged : α → List Command → Prop) : Prop :=
  Ensures (Held origin now) call
    (fun a w => ∃ commands, staged a commands ∧ w.tx.pending = origin.pending ++ recordsOf bucket now commands)
    fun w => w.tx = origin

theorem Exact.answer {call : Call α} {answer : α → β} {staged : β → List Command → Prop}
    (h : Exact bucket origin now call fun a => staged (answer a)) :
    Exact bucket origin now (call >>= fun a => pure (answer a)) staged :=
  Ensures.bind h fun _ _ hw => hw

/-- A call that leaves the transaction as it is stages nothing. -/
theorem KeepsTx.exact {call : Call α} (h : KeepsTx call) {staged : α → List Command → Prop}
    (hnothing : ∀ a, staged a []) : Exact bucket origin now call staged := by
  rintro w ⟨rfl, -⟩
  have hkeeps := h w
  revert hkeeps
  rcases call.run w with ⟨_ | a, t⟩
  · exact id
  · intro hkeeps
    refine ⟨[], hnothing a, ?_⟩
    rw [hkeeps]
    exact (List.append_nil _).symm

/-! ## Checks -/

theorem ensures_checkWritable (hwrites : origin.isWritable = true) :
    Ensures (Held origin now) checkWritable (fun _ => Held origin now) fun w => w.tx = origin := by
  rintro ⟨tx, env⟩ ⟨rfl, hstands⟩
  rw [run_checkWritable hwrites]
  exact ⟨rfl, hstands⟩

theorem ensures_checkRead (hopen : origin.isClosed = false)
    (hlive : origin.SeesExpired committed bucket key now = false) :
    Ensures (Held origin now) (checkRead committed bucket key) (fun _ => Held origin now) fun w => w.tx = origin := by
  rintro ⟨tx, env⟩ ⟨rfl, hstands⟩
  cases hstore : tx.visible committed bucket with
  | none =>
    rw [checkRead, run_bind_error (run_requireBucket_missing hopen hstore)]
  | some store =>
    rw [SeesExpired, hstore, ← hstands.second] at hlive
    rw [run_checkRead hopen hstore hlive]
    exact ⟨rfl, hstands.tick⟩

theorem ensures_checkChange (hwrites : origin.isWritable = true)
    (hlive : origin.SeesExpired committed bucket key now = false) :
    Ensures (Held origin now) (checkChange committed bucket key) (fun _ => Held origin now) fun w => w.tx = origin :=
  (ensures_checkWritable hwrites).bind fun _ => ensures_checkRead (isClosed_of_isWritable hwrites) hlive

/-- What is known of a transaction at work after a lookup. -/
def HeldSeeing (committed : Index) (bucket : String) (origin : Tx) (now : UInt64) (view : Store → Except Error α)
    (a : α) (w : Work) : Prop :=
  Held origin now w ∧ w.tx.Sees committed bucket view a

theorem ensures_held_look (view : Store → Except Error α) :
    Ensures (Held origin now) (look committed bucket view) (HeldSeeing committed bucket origin now view)
      fun w => w.tx = origin :=
  ensures_look (fun _ hw => hw.1) view

theorem ensures_held_requireKey :
    Ensures (Held origin now) (requireKey committed bucket key) (fun _ => Held origin now) fun w => w.tx = origin :=
  (ensures_held_look _).weaken (fun _ hw => hw) fun _ _ hw => hw.1

/-! ## Staging -/

/-- A command that is justified by what the last lookup has seen is staged. -/
theorem ensures_held_stage {view : Store → Except Error α} {a : α} {command : Command}
    (h : ∀ store, view store = .ok a → command.Justified now store) :
    Ensures (HeldSeeing committed bucket origin now view a) (stage committed bucket command)
      (fun _ w => w.tx.pending = origin.pending ++ recordsOf bucket now [command]) fun w => w.tx = origin := by
  rintro ⟨tx, env⟩ ⟨⟨rfl, hstands⟩, store, hstore, hview⟩
  rw [stage, run_bind_ok run_now, hstands.second]
  cases tx with
  | reading => rfl
  | closed => rfl
  | writing draft =>
    have hjustified : command.Justified now (copyOf committed bucket draft) := by
      rw [copyOf, hstore]
      exact h store hview
    obtain ⟨count, copy, hrun⟩ := Command.apply_of_justified hjustified
    rw [run_stageAt_writing, hrun]
    rfl

/-- What a call that stages one command at its end has staged. -/
theorem exact_stage {view : Store → Except Error α} {a : α} {command : Command} {staged : β → List Command → Prop}
    (h : ∀ store, view store = .ok a → command.Justified now store) {answer : Nat → β}
    (hstaged : ∀ count, staged (answer count) [command]) :
    Ensures (HeldSeeing committed bucket origin now view a)
      (stage committed bucket command >>= fun count => pure (answer count))
      (fun b w => ∃ commands, staged b commands ∧ w.tx.pending = origin.pending ++ recordsOf bucket now commands)
      fun w => w.tx = origin :=
  Ensures.bind (ensures_held_stage h) fun count _ hw => ⟨[command], hstaged count, hw⟩

theorem ensures_held_throw {view : Store → Except Error α} {a : α} (e : Error) {staged : β → Work → Prop} :
    Ensures (HeldSeeing committed bucket origin now view a) (throw e : Call β) staged fun w => w.tx = origin :=
  fun _ hw => hw.1.1

/-! ## Requests that look -/

section

variable (hopen : origin.isClosed = false) (hlive : origin.SeesExpired committed bucket key now = false)
include hopen hlive

theorem ensures_held_read (view : Store → Except Error α) :
    Ensures (Held origin now) (do checkRead committed bucket key; look committed bucket view)
      (HeldSeeing committed bucket origin now view) fun w => w.tx = origin :=
  (ensures_checkRead hopen hlive).bind fun _ => ensures_held_look view

theorem exact_read (view : Store → Except Error α) {staged : α → List Command → Prop} (hnothing : ∀ a, staged a []) :
    Exact bucket origin now (do checkRead committed bucket key; look committed bucket view) staged :=
  (ensures_checkRead hopen hlive).bind fun _ => (keepsTx_look committed bucket view).exact hnothing

end

/-! ## Requests that change -/

section

variable (hwrites : origin.isWritable = true) (hlive : origin.SeesExpired committed bucket key now = false)
include hwrites hlive

theorem exact_pop (side : Side) :
    Exact bucket origin now (pop committed side bucket key) fun value => (Request.pop side key).Staged (.value value) := by
  refine (ensures_checkWritable hwrites).bind fun _ => ?_
  refine Ensures.bind (ensures_held_read (isClosed_of_isWritable hwrites) hlive _) fun value => ?_
  exact exact_stage (fun _ => Command.justified_pop) fun _ => .pop side key value

theorem exact_remove (count : Int64) (value : Bytes) :
    Exact bucket origin now (remove committed bucket key count value) fun removed =>
      (Request.remove key count value).Staged (.count removed) := by
  refine (ensures_checkChange hwrites hlive).bind fun _ => (ensures_held_look _).bind fun size => ?_
  split
  · exact ensures_held_throw .countOutOfRange
  · rename_i hcount
    refine (ensures_held_stage fun _ hlength => Command.justified_remove hlength hcount value).weaken
      (fun _ hw => hw) fun removed _ hw => ?_
    exact ⟨_, .remove key count value removed, hw⟩

theorem exact_replace (index : Int64) (value : Bytes) :
    Exact bucket origin now (replace committed bucket key index value) fun _ =>
      (Request.replace key index value).Staged .done := by
  refine (ensures_checkChange hwrites hlive).bind fun _ => ensures_held_requireKey.bind fun _ => ?_
  refine (ensures_held_look _).bind fun size => ?_
  split
  · exact ensures_held_throw .indexOutOfRange
  · rename_i hindex
    exact exact_stage (fun _ hlength => Command.justified_replace hlength hindex value) fun _ =>
      .replace key index value

theorem exact_trim (start stop : Int64) :
    Exact bucket origin now (trim committed bucket key start stop) fun _ =>
      (Request.trim key start stop).Staged .done := by
  refine (ensures_checkChange hwrites hlive).bind fun _ => ensures_held_requireKey.bind fun _ => ?_
  refine Ensures.bind (ensures_held_read (isClosed_of_isWritable hwrites) hlive _) fun _ => ?_
  exact exact_stage (fun _ => Command.justified_trim) fun _ => .trim key start stop

theorem exact_removeAt (indexes : List Int64) :
    Exact bucket origin now (removeAt committed bucket key indexes) fun removed =>
      (Request.removeAt key indexes).Staged (.count removed) := by
  refine (ensures_checkChange hwrites hlive).bind fun _ => (ensures_held_look _).bind fun removable => ?_
  split
  · rintro w ⟨⟨rfl, -⟩, -⟩
    exact ⟨[], .removeNone key indexes, (List.append_nil _).symm⟩
  · rename_i hsome
    exact exact_stage (fun _ hremovable => Command.justified_removeAt hremovable hsome) fun _ =>
      .removeSome key indexes (Nat.pos_of_ne_zero hsome)

end

theorem isExpired_copyOf (draft : Draft) :
    (copyOf committed bucket draft).isExpired key now = (Tx.writing draft).SeesExpired committed bucket key now := by
  rw [SeesExpired, copyOf]
  cases (Tx.writing draft).visible committed bucket with
  | none => rfl
  | some store => rfl

/-! ## Pushes -/

/-- A push of one value stages a command, and a list that has not expired has not expired then either. -/
theorem run_stage_push (side : Side) (value : Bytes) {env : Env} (hwrites : tx.isWritable = true)
    (hlive : tx.SeesExpired committed bucket key now = false) (hstands : env.Stands now) :
    ∃ w, (stage committed bucket (.push side key value)).run ⟨tx, env⟩ = (.ok 1, w) ∧ w.tx.isWritable = true ∧
      w.tx.SeesExpired committed bucket key now = false ∧ w.env.Stands now ∧
      w.tx.pending = tx.pending ++ recordsOf bucket now [.push side key value] := by
  obtain ⟨draft, rfl⟩ := exists_draft hwrites
  have hstage := run_stageAt_writing committed bucket draft env.tick (.push side key value) now
  rw [Store.run_apply_push] at hstage
  rw [stage, run_bind_ok run_now, hstands.second, hstage]
  refine ⟨_, rfl, rfl, ?_, hstands.tick, rfl⟩
  rw [SeesExpired, visible_install]
  exact (isExpired_copyOf draft).trans hlive

/-- A push to a list that has not expired stages a command for each value. -/
theorem run_pushEach_live (side : Side) (values : List Bytes) {env : Env} (hwrites : tx.isWritable = true)
    (hlive : tx.SeesExpired committed bucket key now = false) (hstands : env.Stands now) :
    ∃ w, (pushEach committed side bucket key values).run ⟨tx, env⟩ = (.ok (), w) ∧
      w.tx.pending = tx.pending ++ recordsOf bucket now (values.map fun value => .push side key value) := by
  induction values generalizing tx env with
  | nil => exact ⟨⟨tx, env⟩, rfl, (List.append_nil _).symm⟩
  | cons value values ih =>
    have hfresh := run_requireFresh_live (isClosed_of_isWritable hwrites) (hstands.second.symm ▸ hlive)
    obtain ⟨w, hstage, hwrites', hlive', hstands', hpending⟩ := run_stage_push side value hwrites hlive hstands.tick
    obtain ⟨w', hrest, hpending'⟩ := ih hwrites' hlive' hstands'
    refine ⟨w', ?_, ?_⟩
    · rw [pushEach, run_bind_ok hfresh, run_bind_ok hstage]
      exact hrest
    · rw [hpending', hpending, List.append_assoc]
      rfl

/-- A push stages a command for each value, or none of them; the list matters only if there are values and the key
can name a list. -/
theorem exact_push (side : Side) (values : List Bytes) (hwrites : origin.isWritable = true)
    (hlive : values ≠ [] → containsSeparator key = false → origin.SeesExpired committed bucket key now = false) :
    Exact bucket origin now (push committed side bucket key values) fun _ =>
      (Request.push side key values).Staged .done := by
  refine (ensures_checkWritable hwrites).bind fun _ => ?_
  split
  · exact fun _ hw => hw.1
  · rename_i hkey
    rintro ⟨tx, env⟩ ⟨rfl, hstands⟩
    by_cases hvalues : values = []
    · subst hvalues
      exact ⟨[], .push side key [], (List.append_nil _).symm⟩
    · obtain ⟨w, hpush, hpending⟩ := run_pushEach_live side values hwrites
        (hlive hvalues (Bool.eq_false_iff.mpr hkey)) hstands
      rw [hpush]
      exact ⟨_, .push side key values, hpending⟩

/-- A new expiry is set, or there is no bucket. -/
theorem exact_expire (ttl : UInt32) (hwrites : origin.isWritable = true) :
    Exact bucket origin now (expire committed bucket key ttl) fun _ => (Request.expire key ttl).Staged .done := by
  rintro ⟨tx, env⟩ ⟨rfl, hstands⟩
  obtain ⟨draft, rfl⟩ := exists_draft hwrites
  cases hstore : (Tx.writing draft).visible committed bucket with
  | none =>
    rw [expire, run_bind_ok (run_checkWritable hwrites env),
      run_bind_error (run_requireBucket_missing rfl hstore)]
  | some store =>
    rw [run_expire hstore key ttl env, hstands.second]
    exact ⟨_, .expire key ttl, rfl⟩

end Tx

/-! ## Requests -/

namespace Request

variable {committed : Index} {bucket : String} {now : UInt64} {tx : Tx} {env : Env} {request : Request}

/-- A request that does not meet an expired list fails and leaves the transaction as it was, or brings a reply and has
staged the commands that belong to it. -/
theorem exact_perform (hopen : tx.isClosed = false) (hwrites : request.isChange = true → tx.isWritable = true)
    (hlive : ∀ key, request.Guarded key ∨ request = .checkExpire key →
      tx.SeesExpired committed bucket key now = false) :
    Tx.Exact bucket tx now (request.perform committed bucket) request.Staged := by
  cases request with
  | push side key values =>
    exact (Tx.exact_push side values (hwrites rfl) fun hvalues hkey =>
      hlive key (Or.inl ⟨rfl, hvalues, hkey⟩)).answer
  | pop side key => exact (Tx.exact_pop (hwrites rfl) (hlive key (Or.inl rfl)) side).answer
  | peek side key =>
    exact (Tx.exact_read hopen (hlive key (Or.inl rfl)) _ fun value => .peek side key value).answer
  | length key => exact (Tx.exact_read hopen (hlive key (Or.inl rfl)) _ fun size => .length key size).answer
  | range key start stop =>
    exact (Tx.exact_read hopen (hlive key (Or.inl rfl)) _ fun values => .range key start stop values).answer
  | remove key count value => exact (Tx.exact_remove (hwrites rfl) (hlive key (Or.inl rfl)) count value).answer
  | replace key index value => exact (Tx.exact_replace (hwrites rfl) (hlive key (Or.inl rfl)) index value).answer
  | trim key start stop => exact (Tx.exact_trim (hwrites rfl) (hlive key (Or.inl rfl)) start stop).answer
  | removeAt key indexes => exact (Tx.exact_removeAt (hwrites rfl) (hlive key (Or.inl rfl)) indexes).answer
  | expire key ttl => exact (Tx.exact_expire ttl (hwrites rfl)).answer
  | checkExpire key =>
    rintro ⟨tx, env⟩ ⟨rfl, hstands⟩
    have hlive := hlive key (Or.inr rfl)
    rw [← hstands.second] at hlive
    rw [perform, Attempt.run_bind_pure (Tx.run_checkExpire_live hopen hlive)]
    exact ⟨[], .live key, (List.append_nil _).symm⟩
  | ttl key => exact ((Tx.keepsTx_ttl committed bucket key).exact fun seconds => .ttl key seconds).answer
  | expiry key => exact ((Tx.keepsTx_expiry committed bucket key).exact fun found => .expiry key found).answer
  | keys pattern last =>
    exact ((Tx.keepsTx_keys committed bucket pattern last).exact fun found => .keys pattern last found).answer

end Request

end DurableLists

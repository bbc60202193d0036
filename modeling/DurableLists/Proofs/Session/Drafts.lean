import DurableLists.Session
import DurableLists.Proofs.Tx.Requests

/-!
# Drafts of a session

On every machine, whatever the calls on its files bring, each transaction of a session is sound and at most one
writes (`Session.Sound`). A use of a transaction closes it or makes it grow (`Use.sound_perform`). A transaction
that does not write leaves the database as it is (`Use.db_perform`), so that the one that writes cannot be
overtaken; and as long as a transaction is open, its script has committed nothing (`Script.db_of_open`). One action
keeps the session sound (`Session.sound_act`), and so does a run (`Session.sound_run`).
-/

set_option autoImplicit false

namespace DurableLists

/-! ## Handles -/

namespace Database

namespace Handle

variable {h : Handle} {draft : Draft}

theorem run_close_writing (htx : h.tx = .writing draft) :
    close.run h = (.ok (.writing draft), { h with tx := .closed }) := by
  rw [close, Attempt.run_bind_ok (Attempt.run_get h)]
  simp only [htx]
  rfl

/-- A commit closes the transaction, whether or not it succeeds. -/
theorem tx_commit (h : Handle) : (commit.run h).2.tx = .closed := by
  obtain ⟨tx, db, machine⟩ := h
  cases tx with
  | reading => rfl
  | closed => rfl
  | writing draft =>
    rw [commit, Attempt.run_bind_ok (run_close_writing rfl)]
    simp only
    split
    · rfl
    · rw [Attempt.run_bind, onDatabase, Attempt.run_onPart]
      rcases (commitDraft draft).run ⟨db, machine⟩ with ⟨_ | txId, r⟩ <;> rfl

theorem db_commit (hreads : h.tx.isWritable = false) : (commit.run h).2.db = h.db := by
  obtain ⟨tx, db, machine⟩ := h
  cases tx with
  | reading => rfl
  | closed => rfl
  | writing draft => cases hreads

theorem run_rollback : ∃ trace, (rollback.run h).2 = ⟨.closed, h.db, { h.machine with env.trace := trace }⟩ := by
  obtain ⟨tx, db, machine⟩ := h
  cases tx with
  | reading => exact ⟨machine.env.trace, rfl⟩
  | closed => exact ⟨machine.env.trace, rfl⟩
  | writing draft =>
    rw [rollback, Attempt.run_bind_ok (run_close_writing rfl)]
    split
    · exact ⟨_, rfl⟩
    · exact ⟨machine.env.trace, rfl⟩

theorem run_drop : ∃ trace, (drop.run h).2 = ⟨.closed, h.db, { h.machine with env.trace := trace }⟩ := by
  rw [drop, Attempt.run_bind_ok (Attempt.run_get h)]
  split
  · exact run_rollback
  · rename_i hclosed
    obtain ⟨tx, db, machine⟩ := h
    cases tx with
    | closed => exact ⟨machine.env.trace, rfl⟩
    | reading => exact absurd rfl hclosed
    | writing draft => exact absurd rfl hclosed

end Handle

/-- What is left in the end is what the body leaves, the trace apart. -/
theorem run_within {α : Type} (writable : Bool) (body : Attempt Handle α) (r : Running) :
    ∃ trace, (within writable body).run r = ((body.run ⟨Tx.begin writable, r.db, r.machine⟩).1,
      ⟨(body.run ⟨Tx.begin writable, r.db, r.machine⟩).2.db,
        { (body.run ⟨Tx.begin writable, r.db, r.machine⟩).2.machine with env.trace := trace }⟩) := by
  obtain ⟨trace, hdrop⟩ := Handle.run_drop (h := (body.run ⟨Tx.begin writable, r.db, r.machine⟩).2)
  refine ⟨trace, ?_⟩
  simp only [within, Attempt.run_ofFn, hdrop]

end Database

/-! ## Uses and scripts -/

open Database

variable {α : Type} {h : Handle}

theorem Use.sound_perform (u : Use) (hsound : h.tx.Sound h.db.index) :
    (u.perform.run h).2.tx.Sound (u.perform.run h).2.db.index := by
  cases u with
  | list bucket request =>
    exact (request.grows_perform h.db.index bucket ⟨h.tx, h.machine.env⟩).sound hsound
  | pending => exact hsound
  | isWritable => exact hsound
  | isClosed => exact hsound
  | commit =>
    rw [Use.perform, Attempt.state_run_bind_pure, Handle.tx_commit]
    trivial
  | rollback =>
    obtain ⟨trace, hrun⟩ := Handle.run_rollback (h := h)
    rw [Use.perform, Attempt.state_run_bind_pure, hrun]
    trivial

theorem Script.sound_run (script : Script α) (hsound : h.tx.Sound h.db.index) :
    (script.run.run h).2.tx.Sound (script.run.run h).2.db.index := by
  induction script generalizing h with
  | done outcome => exact hsound
  | use u next ih => exact ih (u.perform.run h).1 (u.sound_perform hsound)

/-- A transaction that does not write never begins to, and leaves the database as it is. -/
theorem Use.db_perform (u : Use) (hreads : h.tx.isWritable = false) :
    (u.perform.run h).2.db = h.db ∧ (u.perform.run h).2.tx.isWritable = false := by
  cases u with
  | list bucket request =>
    have hgrows := request.grows_perform h.db.index bucket ⟨h.tx, h.machine.env⟩
    exact ⟨rfl, hgrows.isWritable_eq.trans hreads⟩
  | pending => exact ⟨rfl, hreads⟩
  | isWritable => exact ⟨rfl, hreads⟩
  | isClosed => exact ⟨rfl, hreads⟩
  | commit =>
    rw [Use.perform, Attempt.state_run_bind_pure, Handle.tx_commit, Handle.db_commit hreads]
    exact ⟨rfl, rfl⟩
  | rollback =>
    obtain ⟨trace, hrun⟩ := Handle.run_rollback (h := h)
    rw [Use.perform, Attempt.state_run_bind_pure, hrun]
    exact ⟨rfl, rfl⟩

theorem Script.db_run (script : Script α) (hreads : h.tx.isWritable = false) :
    (script.run.run h).2.db = h.db ∧ (script.run.run h).2.tx.isWritable = false := by
  induction script generalizing h with
  | done outcome => exact ⟨rfl, hreads⟩
  | use u next ih =>
    obtain ⟨hdb, hstill⟩ := u.db_perform hreads
    obtain ⟨hdb', hstill'⟩ := ih (u.perform.run h).1 hstill
    exact ⟨hdb'.trans hdb, hstill'⟩

/-- As long as the transaction is open, nothing has been committed. -/
theorem Use.db_of_open (u : Use) (hopen : (u.perform.run h).2.tx.isClosed = false) :
    (u.perform.run h).2.db = h.db ∧ h.tx.isClosed = false := by
  cases u with
  | list bucket request =>
    have hgrows := request.grows_perform h.db.index bucket ⟨h.tx, h.machine.env⟩
    exact ⟨rfl, hgrows.isClosed_eq.symm.trans hopen⟩
  | pending => exact ⟨rfl, hopen⟩
  | isWritable => exact ⟨rfl, hopen⟩
  | isClosed => exact ⟨rfl, hopen⟩
  | commit =>
    rw [Use.perform, Attempt.state_run_bind_pure, Handle.tx_commit] at hopen
    cases hopen
  | rollback =>
    obtain ⟨trace, hrun⟩ := Handle.run_rollback (h := h)
    rw [Use.perform, Attempt.state_run_bind_pure, hrun] at hopen
    cases hopen

theorem Script.db_of_open (script : Script α) (hopen : (script.run.run h).2.tx.isClosed = false) :
    (script.run.run h).2.db = h.db ∧ h.tx.isClosed = false := by
  induction script generalizing h with
  | done outcome => exact ⟨rfl, hopen⟩
  | use u next ih =>
    obtain ⟨hdb, hstill⟩ := ih (u.perform.run h).1 hopen
    obtain ⟨hdb', hopen'⟩ := u.db_of_open hstill
    exact ⟨hdb.trans hdb', hopen'⟩

/-! ## Sessions -/

namespace Session

variable {s : Session}

/-- At most one of the transactions writes. -/
def Single (txs : Std.ExtTreeMap String Tx compare) : Prop :=
  ∀ (name other : String) (tx later : Tx), txs[name]? = some tx → txs[other]? = some later →
    tx.isWritable = true → later.isWritable = true → name = other

/-- A session whose transactions are sound and of which at most one writes. -/
structure Sound (s : Session) : Prop where
  drafts : ∀ (db : Database) (name : String) (tx : Tx), s.db = some db → s.txs[name]? = some tx →
    tx.Sound db.index
  single : Single s.txs

/-- A session offers a script one of its transactions, or one that has just begun; that may write if no
other one does. -/
inductive Offers (s : Session) : Handle → Prop where
  | named {db : Database} {name : String} {tx : Tx} (hdb : s.db = some db) (htx : s.txs[name]? = some tx) :
      Offers s ⟨tx, db, s.machine⟩
  | fresh {db : Database} {writable : Bool} (hdb : s.db = some db)
      (halone : writable = true → s.isWriting = false) : Offers s ⟨Tx.begin writable, db, s.machine⟩

theorem Offers.db_eq (h' : s.Offers h) : s.db = some h.db := by
  cases h' with
  | named hdb htx => exact hdb
  | fresh hdb halone => exact hdb

theorem Sound.offered (hs : s.Sound) (hoffers : s.Offers h) : h.tx.Sound h.db.index := by
  cases hoffers with
  | named hdb htx => exact hs.drafts _ _ _ hdb htx
  | fresh hdb halone => exact Tx.sound_begin _ _

/-! ## Transactions of a session -/

theorem of_getElem?_insert {txs : Std.ExtTreeMap String Tx compare} {name other : String} {tx later : Tx}
    (h : (txs.insert name tx)[other]? = some later) :
    (other = name ∧ later = tx) ∨ (other ≠ name ∧ txs[other]? = some later) := by
  rw [Std.ExtTreeMap.getElem?_insert] at h
  by_cases hname : name = other
  · rw [if_pos (by simpa using hname)] at h
    exact Or.inl ⟨hname.symm, (Option.some.inj h).symm⟩
  · rw [if_neg (by simpa using hname)] at h
    exact Or.inr ⟨fun e => hname e.symm, h⟩

theorem of_getElem?_erase {txs : Std.ExtTreeMap String Tx compare} {name other : String} {tx : Tx}
    (h : (txs.erase name)[other]? = some tx) : txs[other]? = some tx := by
  rw [Std.ExtTreeMap.getElem?_erase] at h
  split at h
  · cases h
  · exact h

theorem Single.insert {txs : Std.ExtTreeMap String Tx compare} (h : Single txs) {name : String} {tx : Tx}
    (halone : tx.isWritable = true → ∀ (other : String) (later : Tx), other ≠ name →
      txs[other]? = some later → later.isWritable = false) : Single (txs.insert name tx) := by
  intro first second one two hone htwo hfirst hsecond
  rcases of_getElem?_insert hone with ⟨rfl, rfl⟩ | ⟨hne, hone'⟩
  · rcases of_getElem?_insert htwo with ⟨rfl, -⟩ | ⟨hne, htwo'⟩
    · rfl
    · rw [halone hfirst second two hne htwo'] at hsecond
      cases hsecond
  · rcases of_getElem?_insert htwo with ⟨rfl, rfl⟩ | ⟨-, htwo'⟩
    · rw [halone hsecond first one hne hone'] at hfirst
      cases hfirst
    · exact h first second one two hone' htwo' hfirst hsecond

theorem Single.alone {txs : Std.ExtTreeMap String Tx compare} (h : Single txs) {name other : String}
    {tx later : Tx} (htx : txs[name]? = some tx) (hwrites : tx.isWritable = true) (hother : other ≠ name)
    (hlater : txs[other]? = some later) : later.isWritable = false :=
  Bool.eq_false_iff.mpr fun hlaterWrites => hother (h other name later tx hlater htx hlaterWrites hwrites)

theorem isWriting_eq_false_iff : s.isWriting = false ↔
    ∀ (name : String) (tx : Tx), s.txs[name]? = some tx → tx.isWritable = false := by
  rw [isWriting, List.any_eq_false]
  refine ⟨fun h name tx htx => ?_, fun h p hp => ?_⟩
  · exact Bool.eq_false_iff.mpr (h (name, tx) (Std.ExtTreeMap.mem_toList_iff_getElem?_eq_some.mpr htx))
  · rw [h p.1 p.2 (Std.ExtTreeMap.mem_toList_iff_getElem?_eq_some.mp hp)]
    simp

/-- Dropping a transaction changes the clock and the trace, and takes the transaction out. -/
theorem dropTx_eq (name : String) (s : Session) :
    ∃ env, s.dropTx name = { s with machine := { s.machine with env }, txs := s.txs.erase name } := by
  obtain ⟨machine, config, db, txs⟩ := s
  cases db with
  | none => exact ⟨machine.env, rfl⟩
  | some db =>
    cases htx : txs[name]? with
    | none =>
      refine ⟨machine.env, ?_⟩
      simp only [dropTx, onTx, htx]
    | some tx =>
      obtain ⟨trace, hdrop⟩ := Handle.run_drop (h := ⟨tx, db, machine⟩)
      refine ⟨{ machine.env with trace }, ?_⟩
      have herase : (txs.insert name Tx.closed).erase name = txs.erase name := by
        apply Std.ExtTreeMap.ext_getElem?
        intro other
        simp only [Std.ExtTreeMap.getElem?_erase, Std.ExtTreeMap.getElem?_insert]
        split <;> rfl
      simp only [dropTx, onTx, htx, hdrop, herase]

/-- Closing changes the clock and the trace, lets the database go, and leaves neither it nor transactions. -/
theorem close_eq (s : Session) : ∃ env, s.close = { s with
    machine := s.db.elim { s.machine with env } fun db => db.release { s.machine with env }
    db := none
    txs := ∅ } := by
  have hfold (names : List String) (s : Session) :
      ∃ env, names.foldl (fun s name => s.dropTx name) s =
        { s with machine := { s.machine with env }, txs := names.foldl (fun txs name => txs.erase name) s.txs } := by
    induction names generalizing s with
    | nil => exact ⟨s.machine.env, rfl⟩
    | cons name names ih =>
      obtain ⟨env, hdrop⟩ := dropTx_eq name s
      obtain ⟨env', hrest⟩ := ih (s.dropTx name)
      refine ⟨env', ?_⟩
      rw [List.foldl_cons, List.foldl_cons, hrest, hdrop]
  have herased (names : List String) (txs : Std.ExtTreeMap String Tx compare) (other : String)
      (hother : other ∈ names ∨ txs[other]? = none) :
      (names.foldl (fun txs name => txs.erase name) txs)[other]? = none := by
    induction names generalizing txs with
    | nil => exact hother.resolve_left (by simp)
    | cons name names ih =>
      rw [List.foldl_cons]
      refine ih (txs.erase name) ?_
      rw [Std.ExtTreeMap.getElem?_erase]
      rcases hother with hother | hnone
      · rcases List.mem_cons.mp hother with rfl | hother
        · exact Or.inr (by simp)
        · exact Or.inl hother
      · right
        split
        · rfl
        · exact hnone
  obtain ⟨env, hdropped⟩ := hfold s.txs.keys s
  have hempty : s.txs.keys.foldl (fun txs name => txs.erase name) s.txs = ∅ := by
    apply Std.ExtTreeMap.ext_getElem?
    intro other
    rw [herased, Std.ExtTreeMap.getElem?_empty]
    by_cases hother : other ∈ s.txs
    · exact Or.inl (Std.ExtTreeMap.mem_keys.mpr hother)
    · exact Or.inr (Std.ExtTreeMap.getElem?_eq_none hother)
  refine ⟨env, ?_⟩
  rw [close, hdropped, hempty]

theorem close_start (machine : Machine) (config : Config) : (start machine config).close = start machine config := by
  have hkeys : (∅ : Std.ExtTreeMap String Tx compare).keys = [] :=
    Std.ExtTreeMap.keys_eq_nil_iff.mpr rfl
  simp only [Session.close, start, hkeys, List.foldl_nil, Option.elim_none]

/-! ## Actions keep a session sound -/

theorem Sound.of_no_tx (htxs : s.txs = ∅) : s.Sound := by
  refine ⟨fun db name tx _ htx => ?_, fun first second one two hone => ?_⟩
  · rw [htxs, Std.ExtTreeMap.getElem?_empty] at htx
    cases htx
  · rw [htxs, Std.ExtTreeMap.getElem?_empty] at hone
    cases hone

theorem Sound.start (machine : Machine) (config : Config) : (start machine config).Sound := .of_no_tx rfl

theorem Sound.dropTx (hs : s.Sound) (name : String) : (s.dropTx name).Sound := by
  obtain ⟨env, hdrop⟩ := dropTx_eq name s
  rw [hdrop]
  refine ⟨fun db other tx hdb htx => hs.drafts db other tx hdb (of_getElem?_erase htx), ?_⟩
  intro first second tx later htx hlater
  exact hs.single first second tx later (of_getElem?_erase htx) (of_getElem?_erase hlater)

theorem Sound.close (s : Session) : s.close.Sound := by
  obtain ⟨env, hclose⟩ := close_eq s
  rw [hclose]
  exact .of_no_tx rfl

theorem Sound.begin (hs : s.Sound) (name : String) (writable : Bool) : (s.begin name writable).2.Sound := by
  have hdropped := hs.dropTx name
  simp only [Session.begin]
  split
  · exact hs
  · split
    · exact hdropped
    · rename_i hwriting
      -- A second writing transaction is refused, so the one that begins is the only one.
      have halone (hbegin : (Tx.begin writable).isWritable = true) (other : String) (tx : Tx)
          (htx : (s.dropTx name).txs[other]? = some tx) : tx.isWritable = false := by
        have hwritable : writable = true := by
          cases writable with
          | true => rfl
          | false => cases hbegin
        rw [hwritable, Bool.true_and, Bool.not_eq_true] at hwriting
        exact isWriting_eq_false_iff.mp hwriting other tx htx
      refine ⟨fun db other tx hdb htx => ?_, ?_⟩
      · rcases of_getElem?_insert htx with ⟨-, rfl⟩ | ⟨-, htx⟩
        · exact Tx.sound_begin db.index writable
        · exact hdropped.drafts db other tx hdb htx
      · exact hdropped.single.insert fun hbegin other tx _ htx => halone hbegin other tx htx

/-- A script on one of the transactions of a session. -/
theorem Sound.script (hs : s.Sound) {db : Database} (hdb : s.db = some db) {name : String} {tx : Tx}
    (htx : s.txs[name]? = some tx) {after : Handle} (hsound : after.tx.Sound after.db.index)
    (hreads : tx.isWritable = false → after.db = db ∧ after.tx.isWritable = false) (machine : Machine) :
    Sound { s with db := some after.db, machine, txs := s.txs.insert name after.tx } := by
  refine ⟨fun db' other later hdb' hlater => ?_, hs.single.insert fun hstill other later hother hlater => ?_⟩
  · cases hdb'
    rcases of_getElem?_insert hlater with ⟨-, rfl⟩ | ⟨hother, hlater⟩
    · exact hsound
    · -- The index moves on only if this transaction writes, and then no other one does.
      cases hwritable : tx.isWritable with
      | true => exact Tx.sound_of_not_writable (hs.single.alone htx hwritable hother hlater) _
      | false =>
        rw [(hreads hwritable).1]
        exact hs.drafts db other later hdb hlater
  · cases hwritable : tx.isWritable with
    | true => exact hs.single.alone htx hwritable hother hlater
    | false =>
      rw [(hreads hwritable).2] at hstill
      cases hstill

theorem Sound.use (hs : s.Sound) (name : String) (script : Script α) : (s.onTx name script.run).2.Sound := by
  cases hdb : s.db with
  | none =>
    simp only [onTx, hdb]
    exact hs
  | some db =>
    cases htx : s.txs[name]? with
    | none =>
      simp only [onTx, hdb, htx]
      exact hs
    | some tx =>
      simp only [onTx, hdb, htx]
      have hafter := script.sound_run (h := ⟨tx, db, s.machine⟩) (hs.drafts db name tx hdb htx)
      exact hs.script hdb htx hafter (fun hreads => script.db_run (h := ⟨tx, db, s.machine⟩) hreads) _

theorem Sound.of_quiet (hs : s.Sound) {db after : Database} (hdb : s.db = some db)
    (hquiet : s.isWriting = false ∨ after.index = db.index) (machine : Machine) :
    Sound { s with db := some after, machine } := by
  refine ⟨fun db' name tx hdb' htx => ?_, hs.single⟩
  cases hdb'
  rcases hquiet with hidle | hindex
  · exact Tx.sound_of_not_writable (isWriting_eq_false_iff.mp hidle name tx htx) _
  · rw [hindex]
    exact hs.drafts db name tx hdb htx

theorem Sound.update (hs : s.Sound) (script : Script α) : (s.update script).2.Sound := by
  cases hwriting : s.isWriting with
  | true =>
    simp only [Session.update, hwriting, if_true]
    exact hs
  | false =>
    cases hdb : s.db with
    | none =>
      simp only [Session.update, onDatabase, hdb, hwriting, Bool.false_eq_true, if_false]
      exact hs
    | some db =>
      simp only [Session.update, onDatabase, hdb, hwriting, Bool.false_eq_true, if_false]
      exact hs.of_quiet hdb (Or.inl hwriting) _

theorem Sound.view (hs : s.Sound) (script : Script α) : (s.view script).2.Sound := by
  cases hdb : s.db with
  | none =>
    simp only [Session.view, onDatabase, hdb]
    exact hs
  | some db =>
    obtain ⟨trace, hwithin⟩ := run_within false script.run ⟨db, s.machine⟩
    have hreads := (script.db_run (h := ⟨Tx.begin false, db, s.machine⟩) rfl).1
    simp only [Session.view, onDatabase, hdb, Database.view, hwithin, hreads]
    exact hs.of_quiet hdb (Or.inr rfl) _

theorem Sound.sync (hs : s.Sound) : (s.onDatabase Database.sync).2.Sound := by
  cases hdb : s.db with
  | none =>
    simp only [onDatabase, hdb]
    exact hs
  | some db =>
    have hindex : (Database.sync.run ⟨db, s.machine⟩).2.db.index = db.index := by
      simp only [Database.sync, onLog, Attempt.run_ofFn]
      split <;> rfl
    simp only [onDatabase, hdb]
    exact hs.of_quiet hdb (Or.inr hindex) _

theorem Sound.reopen (s : Session) (config : Config) : (s.reopen config).2.Sound := by
  obtain ⟨env, hclose⟩ := close_eq s
  rw [Session.reopen, hclose]
  simp only
  split <;> exact .of_no_tx rfl

/-- One action keeps a session sound. -/
theorem sound_act (action : Action α) (hs : s.Sound) : (act action s).2.Sound := by
  cases action with
  | begin name writable => exact hs.begin name writable
  | drop name => exact hs.dropTx name
  | use name script => exact hs.use name script
  | update script => exact hs.update script
  | view script => exact hs.view script
  | sync => exact hs.sync
  | close => exact .close s
  | reopen config => exact .reopen s config

theorem sound_run (actions : List (Action α)) (hs : s.Sound) : (run actions s).2.Sound := by
  induction actions generalizing s with
  | nil => exact hs
  | cons action actions ih => exact ih (sound_act action hs)

end Session

end DurableLists

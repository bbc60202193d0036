import DurableLists.Proofs.Database.Backed
import DurableLists.Proofs.Session.Drafts

/-!
# The commits of a run

`Session.commits` lists the commits that a run of a session makes and that succeed with something to
commit, in order, each with the id it took, the records it sealed and the index right after it. The lists
follow the definitions by which handles, scripts, actions and runs are performed, and change nothing.

`Advances` says what such commits make of a database that is backed by its log: the log has grown by their
batches, each under an id that nothing waited under, and each has led from the index after the one before
it to its own.
-/

set_option autoImplicit false

namespace DurableLists

/-- A commit that has succeeded. -/
structure Commit where
  txId : UInt64
  /-- The records that were sealed, in the order of their staging. -/
  pending : List Record
  /-- The committed index right after. -/
  index : Index

namespace Commit

def batch (c : Commit) : List Record := Record.sealBatch c.txId c.pending

/-- The records that commits have appended to the log. -/
def records (commits : List Commit) : List Record := commits.flatMap batch

def octets (commits : List Commit) : Bytes := Frame.encodeAll (records commits)

theorem map_batch_of_map {cs : List Commit} {ps : List (UInt64 × List Record)}
    (h : cs.map (fun c => (c.txId, c.pending)) = ps) :
    cs.map batch = ps.map fun p => Record.sealBatch p.1 p.2 := by
  rw [← h, List.map_map]
  rfl

/-- The committed index after commits, the first of which has met the index `start`. -/
def lastIndex (start : Index) (commits : List Commit) : Index :=
  (commits.getLast?.map index).getD start

@[simp] theorem records_nil : records [] = [] := rfl

@[simp] theorem records_cons (c : Commit) (cs : List Commit) : records (c :: cs) = c.batch ++ records cs :=
  List.flatMap_cons

@[simp] theorem records_append (cs ds : List Commit) : records (cs ++ ds) = records cs ++ records ds :=
  List.flatMap_append

@[simp] theorem lastIndex_nil (start : Index) : lastIndex start [] = start := rfl

@[simp] theorem lastIndex_cons (start : Index) (c : Commit) (cs : List Commit) :
    lastIndex start (c :: cs) = lastIndex c.index cs := by
  cases cs with
  | nil => rfl
  | cons d ds => simp [lastIndex, List.getLast?_cons]

end Commit

/-! ## Commits of a transaction -/

/-- The commit that committing a transaction makes, if it succeeds and there is something to commit. -/
def Database.Handle.commits (h : Database.Handle) : List Commit :=
  match h.tx, Database.Handle.commit.run h with
  | .writing draft, (.ok (), after) =>
    if draft.pending.isEmpty then [] else [⟨h.db.nextTxId, draft.pending, after.db.index⟩]
  | _, _ => []

def Use.commits (h : Database.Handle) : Use → List Commit
  | .commit => h.commits
  | .list .. | .pending | .isWritable | .isClosed | .rollback => []

def Script.commits {α : Type} : Script α → Database.Handle → List Commit
  | .done _, _ => []
  | .use u next, h => u.commits h ++ (next (u.perform.run h).1).commits (u.perform.run h).2

namespace Session

variable {α : Type}

/-! ## Commits of a session -/

/-- The commits of a script on a transaction that has just begun on a database. -/
def scriptCommits (writable : Bool) (script : Script α) (db : Database) (machine : Machine) : List Commit :=
  script.commits ⟨Tx.begin writable, db, machine⟩

/-- The commits of an update: those of the script, and the one at its end if the script succeeds. -/
def updateCommits (script : Script α) (db : Database) (machine : Machine) : List Commit :=
  let (outcome, h) := script.run.run ⟨Tx.begin true, db, machine⟩
  scriptCommits true script db machine ++
    match outcome with
    | .ok _ => h.commits
    | .error _ => []

def Action.commits (s : Session) : Action α → List Commit
  | .use name script =>
    match s.db, s.txs[name]? with
    | some db, some tx => script.commits ⟨tx, db, s.machine⟩
    | _, _ => []
  | .update script =>
    match s.db with
    | some db => if s.isWriting then [] else updateCommits script db s.machine
    | none => []
  | .view script =>
    match s.db with
    | some db => scriptCommits false script db s.machine
    | none => []
  | .begin .. | .drop _ | .sync | .close | .reopen _ => []

/-- The commits that actions make one after another. -/
def commits : List (Action α) → Session → List Commit
  | [], _ => []
  | action :: actions, s => action.commits s ++ commits actions (act action s).2

end Session

/-! ## What commits make of a log -/

/-- Each commit leads from the index before it to its own. -/
def Commit.Chained : Index → List Commit → Index → Prop
  | start, [], stop => stop = start
  | start, c :: cs, stop => (Index.replay c.batch).run start = (.ok (), c.index) ∧ Chained c.index cs stop

/-- Commits whose records fit and whose ids stay below the greatest one, which matters only where
records wait in the log before them. -/
structure Commit.Admissible (rs : List Record) (commits : List Commit) : Prop where
  fits : ∀ c ∈ commits, ∀ r ∈ c.pending, Frame.Fits r
  ids : (Scan.after rs).waiting = ∅ ∨ ∀ c ∈ commits, c.txId.toNat < maxTxId

/-- Commits that are not empty and take ids that nothing waits under. -/
def Commit.Separate (rs : List Record) (commits : List Commit) : Prop :=
  ∀ c ∈ commits, c.pending ≠ [] ∧ (Scan.after rs).waiting[c.txId]? = none

namespace Commit

variable {rs : List Record} {cs ds : List Commit} {start middle stop : Index}

theorem Chained.append (h : Chained start cs middle) (h' : Chained middle ds stop) :
    Chained start (cs ++ ds) stop := by
  induction cs generalizing start with
  | nil =>
    rw [show middle = start from h] at h'
    exact h'
  | cons c cs ih => exact ⟨h.1, ih h.2⟩

theorem Chained.take (h : Chained start cs stop) (k : Nat) :
    Chained start (cs.take k) (lastIndex start (cs.take k)) := by
  induction cs generalizing start k with
  | nil =>
    rw [List.take_nil]
    rfl
  | cons c cs ih =>
    cases k with
    | zero => rfl
    | succ k =>
      rw [List.take_succ_cons, lastIndex_cons]
      exact ⟨h.1, ih h.2 k⟩

theorem Chained.replay (h : Chained start cs stop) :
    (Index.replay (cs.map batch).flatten).run start = (.ok (), stop) := by
  induction cs generalizing start with
  | nil =>
    rw [show stop = start from h]
    rfl
  | cons c cs ih =>
    rw [List.map_cons, List.flatten_cons, Index.run_replay_append h.1]
    exact ih h.2

theorem Separate.take (h : Separate rs cs) (k : Nat) : Separate rs (cs.take k) :=
  fun c hc => h c (List.mem_of_mem_take hc)

theorem isBatch_batch {c : Commit} (h : c.pending ≠ []) : Record.IsBatch c.txId c.batch :=
  Record.isBatch_sealBatch c.txId c.pending h

/-- The batches of separate commits are released one by one, and what waits stays. -/
theorem Separate.transactions (h : Separate rs cs) :
    Scan.transactions (rs ++ records cs) = Scan.transactions rs ++ cs.map batch ∧
      (Scan.after (rs ++ records cs)).waiting = (Scan.after rs).waiting := by
  induction cs generalizing rs with
  | nil => simp
  | cons c cs ih =>
    obtain ⟨hpending, hfresh⟩ := h c (by simp)
    have hbatch := isBatch_batch hpending
    have hwaiting := Scan.waiting_append_isBatch hbatch hfresh
    have hrest : Separate (rs ++ c.batch) cs := by
      intro d hd
      rw [hwaiting]
      exact h d (by simp [hd])
    obtain ⟨htransactions, hstill⟩ := ih hrest
    rw [records_cons, ← List.append_assoc, htransactions, hstill, hwaiting,
      Scan.transactions_append_isBatch hbatch hfresh, List.map_cons, List.append_assoc,
      List.singleton_append]
    exact ⟨rfl, rfl⟩

theorem Separate.append (h : Separate rs cs) (h' : Separate (rs ++ records cs) ds) :
    Separate rs (cs ++ ds) := by
  intro c hc
  rcases List.mem_append.mp hc with hc | hc
  · exact h c hc
  · have hlater := h' c hc
    rwa [h.transactions.2] at hlater

theorem Admissible.left (h : Admissible rs (cs ++ ds)) : Admissible rs cs :=
  ⟨fun c hc => h.fits c (List.mem_append_left _ hc),
    h.ids.imp_right fun hids c hc => hids c (List.mem_append_left _ hc)⟩

theorem Admissible.right (h : Admissible rs (cs ++ ds)) (hcs : Separate rs cs) :
    Admissible (rs ++ records cs) ds := by
  refine ⟨fun c hc => h.fits c (List.mem_append_right _ hc), ?_⟩
  rw [hcs.transactions.2]
  exact h.ids.imp_right fun hids c hc => hids c (List.mem_append_right _ hc)

end Commit

end DurableLists

import DurableLists.Tx.Basic
import DurableLists.Log.Reader
import DurableLists.Log.Writer

/-!
# Databases

A database is the committed index, the log if there is one, and the id of the next transaction. It is
opened by replaying its log. A commit appends the staged records to the log as one batch and, only if
that succeeds, installs the transaction's copies in the index; so the index never runs ahead of the log.
A commit takes its id whether or not it succeeds, and it closes the transaction in either case.
-/

set_option autoImplicit false

namespace DurableLists

/-- An open database. -/
structure Database where
  config : Config
  index : Index
  /-- The log; none if the database lives in memory only. -/
  log : Option Writer
  nextTxId : UInt64

namespace Database

/-- Opens the log that the configuration names, after replaying it. Answers the index, the writer and
the greatest transaction id in the log. -/
def openLog (config : Persistence) : Attempt Machine (Index × Writer × UInt64) := do
  let (index, stats) ← Attempt.ofFn fun machine =>
    let (outcome, loading) := (LoadedLog.load config.logPath).run ⟨∅, machine⟩
    (outcome.map fun stats => (loading.index, stats), loading.machine)
  let writer ← Writer.open config
  return (index, writer, stats.lastTxId)

def «open» (config : Config) : Attempt Machine Database := do
  let (index, log, lastTxId) ←
    if config.persistence.enabled then do
      let (index, writer, lastTxId) ← openLog config.persistence
      pure (index, some writer, lastTxId)
    else do
      Machine.onEnv (Env.emit .persistenceDisabled)
      pure (∅, none, 0)
  Machine.onEnv (Env.emit (.databaseOpened index.size))
  return { config, index, log, nextTxId := lastTxId + 1 }

/-! ## Calls on a database -/

/-- An open database and the machine that it runs on. -/
structure Running where
  db : Database
  machine : Machine

def onEnv {α : Type} (call : Attempt Env α) : Attempt Running α :=
  Attempt.onPart Running.machine (fun machine r => { r with machine }) (Machine.onEnv call)

def onLog (call : Attempt Writer.State Unit) : Attempt Running Unit :=
  Attempt.ofFn fun r =>
    match r.db.log with
    | none => (.ok (), r)
    | some writer =>
      let (outcome, s) := call.run ⟨writer, r.machine⟩
      (outcome, { db := { r.db with log := some s.writer }, machine := s.machine })

def sync : Attempt Running Unit := onLog Writer.sync

/-- Installs the copies of buckets in place of what the index holds of them. -/
def installAll (index working : Index) : Index :=
  working.buckets.foldl (fun index bucket store => index.install bucket store) index

/-- Makes a draft durable and then visible. Answers the transaction id. -/
def commitDraft (draft : Draft) : Attempt Running UInt64 := do
  let txId := (← get).db.nextTxId
  modify fun r => { r with db.nextTxId := txId + 1 }
  match ← Attempt.outcome (onLog (Writer.append (Record.sealBatch txId draft.pending))) with
  | .error cause =>
    onEnv (Env.emit (.commitFailed txId cause))
    throw cause
  | .ok () =>
    modify fun r => { r with db.index := installAll r.db.index draft.working }
    return txId

/-- The machine after a database has been let go. What its log holds back is handed to the file once more, and
nobody hears what the file answers. -/
def release (db : Database) (machine : Machine) : Machine :=
  match db.log with
  | none => machine
  | some writer => (Writer.flush ⟨writer, machine⟩).2.machine

/-! ## Calls on a transaction of a database -/

/-- A transaction at work on an open database. -/
structure Handle where
  tx : Tx
  db : Database
  machine : Machine

namespace Handle

def onDatabase {α : Type} (call : Attempt Running α) : Attempt Handle α :=
  Attempt.onPart (fun h => ⟨h.db, h.machine⟩)
    (fun r h => { h with db := r.db, machine := r.machine }) call

/-- Makes a call on the transaction, which reads the committed index. -/
def onTx {α : Type} (call : Index → Tx.Call α) : Attempt Handle α :=
  Attempt.ofFn fun h =>
    let (outcome, w) := (call h.db.index).run ⟨h.tx, h.machine.env⟩
    (outcome, { h with tx := w.tx, machine := { h.machine with env := w.env } })

def close : Attempt Handle Tx := do
  let tx := (← get).tx
  if tx.isClosed then throw .transactionClosed
  modify fun h => { h with tx := .closed }
  return tx

/-- Commits the transaction. Without staged records there is nothing to do but to close it. -/
def commit : Attempt Handle Unit := do
  match ← close with
  | .writing draft =>
    if draft.pending.isEmpty then return ()
    let txId ← onDatabase (commitDraft draft)
    onDatabase (onEnv (Env.emit (.committed txId draft.pending.length)))
  | .reading | .closed => return ()

def rollback : Attempt Handle Unit := do
  let tx ← close
  if !tx.pending.isEmpty then
    onDatabase (onEnv (Env.emit (.rolledBack tx.pending.length)))

def drop : Attempt Handle Unit := do
  if !(← get).tx.isClosed then rollback

end Handle

/-- Runs a body in a transaction that has just begun, which is dropped at the end. -/
def within {α : Type} (writable : Bool) (body : Attempt Handle α) : Attempt Running α :=
  Attempt.ofFn fun r =>
    let (outcome, h) := body.run ⟨Tx.begin writable, r.db, r.machine⟩
    let (_, h) := Handle.drop.run h
    (outcome, ⟨h.db, h.machine⟩)

/-- Runs a body in a writing transaction, which is committed if the body succeeds and rolled back if it
fails. -/
def update {α : Type} (body : Attempt Handle α) : Attempt Running α :=
  within true do
    let a ← body
    Handle.commit
    return a

def view {α : Type} (body : Attempt Handle α) : Attempt Running α := within false body

end Database

end DurableLists

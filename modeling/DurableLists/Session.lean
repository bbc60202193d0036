import DurableLists.Script

/-!
# Sessions

A session is one user of one database over time: the database is opened, closed and opened again with
a configuration that may change, and any number of transactions, known by names, are at work on it. At
most one of them may write: beginning a second one, or an update beside it, would wait for ever, so the
session refuses that. `run` makes one action after another.
-/

set_option autoImplicit false

namespace DurableLists

/-- One user of one database over time. -/
structure Session where
  machine : Machine
  /-- The configuration for the next opening. -/
  config : Config
  db : Option Database
  txs : Std.ExtTreeMap String Tx compare

namespace Session

/-- Why a session cannot make a call. -/
inductive Refusal where
  | notOpen
  | unknownTx
  | wouldWait
  deriving DecidableEq, Repr

abbrev Answer (α : Type) := Except Refusal (Except Error α)

variable {α : Type}

def start (machine : Machine) (config : Config) : Session := ⟨machine, config, none, ∅⟩

def onDatabase (call : Attempt Database.Running α) (s : Session) : Answer α × Session :=
  match s.db with
  | none => (.error .notOpen, s)
  | some db =>
    let (outcome, r) := call.run ⟨db, s.machine⟩
    (.ok outcome, { s with db := some r.db, machine := r.machine })

def onTx (name : String) (call : Attempt Database.Handle α) (s : Session) : Answer α × Session :=
  match s.db, s.txs[name]? with
  | none, _ => (.error .notOpen, s)
  | some _, none => (.error .unknownTx, s)
  | some db, some tx =>
    let (outcome, h) := call.run ⟨tx, db, s.machine⟩
    (.ok outcome,
      { s with db := some h.db, machine := h.machine, txs := s.txs.insert name h.tx })

def isWriting (s : Session) : Bool := s.txs.toList.any fun p => p.2.isWritable

/-- The session in which the transaction of a name, if there is one, has been dropped. -/
def dropTx (name : String) (s : Session) : Session :=
  let s := (s.onTx name Database.Handle.drop).2
  { s with txs := s.txs.erase name }

/-- The session in which all transactions have been dropped and the database is closed. -/
def close (s : Session) : Session :=
  let s := s.txs.keys.foldl (fun s name => s.dropTx name) s
  { s with machine := s.db.elim s.machine fun db => db.release s.machine, db := none }

/-! ## Actions -/

/-- An action of the user. -/
inductive Action (α : Type) where
  /-- Begins a transaction under a name; one of that name is dropped first. -/
  | begin (name : String) (writable : Bool)
  | drop (name : String)
  | use (name : String) (script : Script α)
  /-- Runs a script in a transaction of its own, which is committed if the script succeeds. -/
  | update (script : Script α)
  /-- Runs a script in a reading transaction of its own. -/
  | view (script : Script α)
  | sync
  | close
  /-- Closes whatever is open and opens the database of a configuration. -/
  | reopen (config : Config)

def begin (name : String) (writable : Bool) (s : Session) : Answer Unit × Session :=
  if s.db.isNone then (.error .notOpen, s)
  else
    let s := s.dropTx name
    if writable && s.isWriting then (.error .wouldWait, s)
    else (.ok (.ok ()), { s with txs := s.txs.insert name (Tx.begin writable) })

def update (script : Script α) (s : Session) : Answer α × Session :=
  if s.isWriting then (.error .wouldWait, s) else s.onDatabase (Database.update script.run)

def view (script : Script α) (s : Session) : Answer α × Session :=
  s.onDatabase (Database.view script.run)

/-- Opens the database of a configuration after closing whatever is open. -/
def reopen (config : Config) (s : Session) : Answer Unit × Session :=
  let s := s.close
  match (Database.open config).run s.machine with
  | (.ok db, machine) => (.ok (.ok ()), { s with config, machine, db := some db })
  | (.error cause, machine) => (.ok (.error cause), { s with config, machine })

def withoutValue (r : Answer Unit × Session) : Answer (Option α) × Session :=
  (r.1.map fun outcome => outcome.map fun _ => none, r.2)

def withValue (r : Answer α × Session) : Answer (Option α) × Session :=
  (r.1.map fun outcome => outcome.map some, r.2)

def act : Action α → Session → Answer (Option α) × Session
  | .begin name writable, s => withoutValue (s.begin name writable)
  | .drop name, s => (.ok (.ok none), s.dropTx name)
  | .use name script, s => withValue (s.onTx name script.run)
  | .update script, s => withValue (s.update script)
  | .view script, s => withValue (s.view script)
  | .sync, s => withoutValue (s.onDatabase Database.sync)
  | .close, s => (.ok (.ok none), s.close)
  | .reopen config, s => withoutValue (s.reopen config)

def run : List (Action α) → Session → List (Answer (Option α)) × Session
  | [], s => ([], s)
  | action :: actions, s =>
    let (answer, s) := act action s
    let (answers, s) := run actions s
    (answer :: answers, s)

end Session

end DurableLists

import DurableLists.Machine
import DurableLists.Frame

/-!
# Writing the log

A writer appends batches of frames to one file. Octets go through a buffer of fixed capacity, which is
emptied at the end of every batch and keeps what the file did not take. After each batch the file is
forced to stable storage if the policy says so. A write or a sync that fails latches the writer: from
then on it refuses every batch.
-/

set_option autoImplicit false

namespace DurableLists

/-- A log opened for appending. -/
structure Writer where
  path : String
  place : Location
  policy : SyncPolicy
  interval : Duration
  /-- Octets that have not been handed to the file. -/
  buffer : Bytes
  /-- The time up at the last sync, or at the opening. -/
  lastSync : Nat
  /-- Whether an append or a sync has failed. -/
  readOnly : Bool

namespace Writer

def capacity : Nat := 8192

/-- A writer and the machine that its file is on. -/
structure State where
  writer : Writer
  machine : Machine

namespace State

def withBuffer (s : State) (buffer : Bytes) : State := { s with writer.buffer := buffer }

def withDisk (s : State) (disk : Disk) : State := { s with machine.disk := disk }

def onEnv {α : Type} (call : Attempt Env α) : Attempt State α :=
  Attempt.onPart State.machine (fun machine s => { s with machine }) (Machine.onEnv call)

end State

/-- Opens a log, creating the directories above it and the file if they are missing. What was created
stays if a later part fails. -/
def «open» (config : Persistence) : Attempt Machine Writer := do
  let path := config.logPath
  Machine.createParents path
  let place ← Machine.onDisk fun d => d.openAppend path
  Machine.onEnv (Env.emit (.logOpened path config.policy))
  let lastSync ← Machine.onEnv Env.uptime
  return {
    path
    place
    policy := config.policy
    interval := config.interval
    buffer := []
    lastSync
    readOnly := false }

/-! ## The buffer -/

/-- Hands octets to the file; answers how many it took and why it took no more, if so. -/
def hand (s : State) (bs : Bytes) : (Nat × Option IoError) × State :=
  let (taken, disk) := s.machine.disk.append s.writer.place bs
  (taken, s.withDisk disk)

/-- Empties the buffer into the file; what the file does not take stays. -/
def flush (s : State) : Option IoError × State :=
  if s.writer.buffer.isEmpty then (none, s)
  else
    let ((taken, fault), s) := hand s s.writer.buffer
    (fault, s.withBuffer (s.writer.buffer.drop taken))

/-- Puts octets into the buffer. If they do not fit, the buffer is emptied first, and if they would not
fit an empty buffer either, they go to the file directly. -/
def write (s : State) (bs : Bytes) : Option IoError × State :=
  let free := capacity - s.writer.buffer.length
  match if free < bs.length then flush s else (none, s) with
  | (some fault, s) => (some fault, s)
  | (none, s) =>
    if bs.length < capacity then (none, s.withBuffer (s.writer.buffer ++ bs))
    else
      let ((_, fault), s) := hand s bs
      (fault, s)

def writeThrough (s : State) (bs : Bytes) : Option IoError × State :=
  match write s bs with
  | (some fault, s) => (some fault, s)
  | (none, s) => flush s

def flushAndSync (s : State) : Option IoError × State :=
  match flush s with
  | (some fault, s) => (some fault, s)
  | (none, s) =>
    let (fault, disk) := s.machine.disk.sync s.writer.place
    (fault, s.withDisk disk)

/-! ## Batches -/

def latch : Attempt State Unit := modify fun s => { s with writer.readOnly := true }

/-- Forces the log to stable storage; a failure latches the writer. -/
def sync : Attempt State Unit := do
  let fault ← Attempt.ofFn fun s => let (fault, s) := flushAndSync s; (.ok fault, s)
  match fault with
  | some cause =>
    State.onEnv (Env.emit (.syncFailed cause))
    latch
    throw (.io cause)
  | none =>
    let now ← State.onEnv Env.uptime
    modify fun s => { s with writer.lastSync := now }

def syncByPolicy : Attempt State Unit := do
  match (← get).writer.policy with
  | .always => sync
  | .never => return ()
  | .everySecond =>
    let now ← State.onEnv Env.uptime
    let writer := (← get).writer
    if writer.interval.nanoseconds ≤ now - writer.lastSync then sync

/-- Appends a batch of records in the order given; a failed write latches the writer. -/
def append (records : List Record) : Attempt State Unit := do
  if (← get).writer.readOnly then throw .latched
  if records.isEmpty then return ()
  let frames := Frame.encodeAll records
  let fault ← Attempt.ofFn fun s => let (fault, s) := writeThrough s frames; (.ok fault, s)
  match fault with
  | some cause =>
    State.onEnv (Env.emit (.appendFailed (.io cause)))
    latch
    throw (.io cause)
  | none =>
    State.onEnv (Env.emit (.batchAppended records.length frames.length))
    syncByPolicy

end Writer

end DurableLists

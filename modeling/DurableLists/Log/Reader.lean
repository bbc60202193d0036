import DurableLists.Machine
import DurableLists.Frame
import DurableLists.Index

/-!
# Reading the log

A log is read in chunks. Records wait under their transaction id, and a transaction is released, as one
batch, when its closing record is read; so a batch that was cut short is never released in part. What
is left at the end, in the buffer or waiting, is reported and dropped. `load` replays the batches into
an index and then cuts the file after the last closing record, so that what is appended later starts at
the end of a frame.
-/

set_option autoImplicit false

namespace DurableLists

/-- The closed transactions of a log. -/
structure LoadedLog where
  /-- The records of each transaction, in the order in which the transactions were closed. -/
  transactions : List (List Record)
  /-- The greatest transaction id of any record, closed or not. -/
  lastTxId : UInt64
  /-- The octets up to and including the last closing record. -/
  committedLength : Nat
  fileLength : Nat
  deriving DecidableEq, Repr

namespace LoadedLog

def empty : LoadedLog := ⟨[], 0, 0, 0⟩

def records (log : LoadedLog) : List Record := log.transactions.flatten

def recordCount (log : LoadedLog) : Nat := log.records.length

end LoadedLog

/-! ## Scanning -/

/-- How far the reading of a log has come. -/
structure Scan where
  /-- Octets read that are no whole frame yet. -/
  buffer : Bytes
  consumed : Nat
  /-- The records of transactions that are not closed, under the transaction ids, the latest first. -/
  waiting : Std.ExtTreeMap UInt64 (List Record) compare
  /-- The ids and the records of the transactions that have been closed, the latest transaction first. -/
  released : List (UInt64 × List Record)
  lastTxId : UInt64
  committedLength : Nat
  fileLength : Nat

namespace Scan

def start : Scan := ⟨[], 0, ∅, [], 0, 0, 0⟩

/-- The scan after a record has been read and `rest` is left in the buffer. -/
def accept (scan : Scan) (r : Record) (rest : Bytes) : Scan :=
  let consumed := scan.consumed + Frame.announced scan.buffer
  let records := r :: (scan.waiting[r.txId]?).getD []
  let scan := { scan with buffer := rest, consumed, lastTxId := max scan.lastTxId r.txId }
  if r.isCommitted then
    { scan with
      waiting := scan.waiting.erase r.txId
      released := (r.txId, records.reverse) :: scan.released
      committedLength := consumed }
  else { scan with waiting := scan.waiting.insert r.txId records }

@[simp] theorem buffer_accept (scan : Scan) (r : Record) (rest : Bytes) :
    (scan.accept r rest).buffer = rest := by
  unfold accept
  split <;> rfl

/-- Reads the frames in the buffer, up to the first one that is not whole or not sound. -/
def drain (scan : Scan) : Option Corruption × Scan :=
  -- A subtype, and not a match that names its equation: evaluation goes through this one.
  match (⟨Frame.decode scan.buffer, rfl⟩ : { found // Frame.decode scan.buffer = found }) with
  | ⟨(.incomplete, _), _⟩ => (none, scan)
  | ⟨(.corrupt cause, rest), _⟩ => (some cause, { scan with buffer := rest })
  | ⟨(.record r, rest), _⟩ => drain (scan.accept r rest)
termination_by scan.buffer.length
decreasing_by
  rw [buffer_accept]
  exact Frame.length_decode_of_record (by assumption)

def feed (scan : Scan) (chunk : Bytes) : Scan :=
  { scan with buffer := scan.buffer ++ chunk, fileLength := scan.fileLength + chunk.length }

/-- How many octets the frame at the front of the buffer misses; none if its length is not there yet. -/
def missing (scan : Scan) : Nat :=
  if scan.buffer.length < Frame.headerLength then 0
  else Frame.announced scan.buffer - scan.buffer.length

/-- Takes chunks as long as all that are taken hold fewer octets than a number. Answers what these hold and the
chunks that are left. -/
def gather (missing : Nat) : List Bytes → Bytes × List Bytes
  | [] => ([], [])
  | chunk :: chunks =>
    if chunk.length < missing then
      let (octets, later) := gather (missing - chunk.length) chunks
      (chunk ++ octets, later)
    else ([], chunk :: chunks)

theorem length_gather_le (missing : Nat) (chunks : List Bytes) :
    (gather missing chunks).2.length ≤ chunks.length := by
  fun_induction gather missing chunks with
  | case1 => exact Nat.le_refl _
  | case2 missing chunk chunks _ octets later hgather ih =>
    rw [hgather] at ih
    exact Nat.le_succ_of_le ih
  | case3 => exact Nat.le_refl _

/-- Reads chunks one after another. Those that cannot make the frame at the front of the buffer whole are put
behind it at once, so that a long buffer is not gone through for each of them. -/
def readAll (scan : Scan) : List Bytes → Option Corruption × Scan
  | [] => (none, scan)
  | chunk :: chunks =>
    match (scan.feed chunk).drain with
    | (some cause, scan) => (some cause, scan)
    | (none, scan) =>
      let gathered := gather scan.missing chunks
      readAll (scan.feed gathered.1) gathered.2
termination_by chunks => chunks.length
decreasing_by exact Nat.lt_succ_of_le (length_gather_le scan.missing chunks)

def log (scan : Scan) : LoadedLog where
  transactions := scan.released.reverse.map (·.2)
  lastTxId := scan.lastTxId
  committedLength := scan.committedLength
  fileLength := scan.fileLength

/-- What is reported about the transactions that have been closed. -/
def closings (scan : Scan) : List Event :=
  scan.released.reverse.map fun p => .transactionLoaded p.1 p.2.length

def leftovers (scan : Scan) : List Event :=
  (if scan.buffer.isEmpty then [] else [.tailIgnored scan.buffer.length]) ++
    scan.waiting.toList.map fun p => .transactionDropped p.1 p.2.length

end Scan

namespace LoadedLog

/-! ## Files -/

/-- Reads the log at a path; a log that is missing holds nothing. -/
def read (path : String) : Attempt Machine LoadedLog := do
  match (← get).disk.find path with
  | .error .notFound =>
    Machine.onEnv (Env.emit (.logMissing path))
    return .empty
  | .error cause => throw (.io cause)
  | .ok (_, node) =>
    match Disk.readChunks node with
    | .error cause => throw (.io cause)
    | .ok chunks =>
      let (fault, scan) := Scan.start.readAll chunks
      Machine.onEnv (Env.emitAll scan.closings)
      match fault with
      | some cause => throw (.logCorrupted cause)
      | none =>
        Machine.onEnv (Env.emitAll scan.leftovers)
        return scan.log

/-- Cuts the file at a path to its first octets and forces it to stable storage. -/
def cut (path : String) (length : Nat) : Attempt Machine Unit := do
  match (← get).disk.find path with
  | .error cause => throw (.io cause)
  | .ok (place, _) =>
    let fault ← Attempt.ofFn fun m =>
      let (fault, disk) := (m.disk.truncate place length).sync place
      (.ok fault, { m with disk })
    match fault with
    | some cause => throw (.io cause)
    | none => return ()

/-- What a load has replayed. -/
structure Stats where
  transactions : Nat
  records : Nat
  lastTxId : UInt64
  deriving DecidableEq, Repr

/-- An index that is being filled, and the machine that the log is on. -/
structure Loading where
  index : Index
  machine : Machine

def Loading.onMachine {α : Type} (call : Attempt Machine α) : Attempt Loading α :=
  Attempt.onPart Loading.machine (fun machine s => { s with machine }) call

def Loading.onIndex {α : Type} (call : Attempt Index α) : Attempt Loading α :=
  Attempt.onPart Loading.index (fun index s => { s with index }) call

/-- Replays the log at a path and cuts off what follows its last closing record. -/
def load (path : String) : Attempt Loading Stats := do
  Loading.onMachine (Machine.onEnv (Env.emit (.logLoading path)))
  let log ← Loading.onMachine (read path)
  Loading.onIndex (Index.replay log.records)
  if log.committedLength < log.fileLength then
    Loading.onMachine do
      Machine.onEnv (Env.emit (.logTruncated log.fileLength log.committedLength))
      cut path log.committedLength
  let stats : Stats := ⟨log.transactions.length, log.recordCount, log.lastTxId⟩
  Loading.onMachine (Machine.onEnv (Env.emit (.logLoaded stats.transactions stats.records)))
  return stats

end LoadedLog

end DurableLists

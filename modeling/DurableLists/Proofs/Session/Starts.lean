import Mathlib
import DurableLists.Proofs.Session.Runs

/-!
# Starting a session

A session that opens its first database on a log finds the log split into what it keeps and what it drops,
and what it keeps leads to the invariant of a run, provided that the ids in the log leave room for more
(`Starts.backed_of_read`, `Starts.backed_of_nil`). At the end stands one run of a session on a new log, with a batch
of several records, a transaction that is dropped, a reopening, a pop and an eviction.
-/

set_option autoImplicit false

namespace DurableLists

namespace Session

/-- A session that has opened its first database, on a machine whose log offers a content. -/
structure Starts (machine : Machine) (config : Config) (content : Bytes) (s : Session) : Prop where
  enabled : config.persistence.enabled = true
  offers : machine.disk.Offers config.persistence.logPath content
  opened : (start machine config).reopen config = (.ok (.ok ()), s)

namespace Starts

variable {machine : Machine} {config : Config} {content : Bytes} {s : Session}

/-- A session that has started has met a log that splits, or none, and has no transaction. -/
theorem met (h : Starts machine config content s) : ∃ place kept dropped tail db,
    Scan.Splits content kept dropped tail ∧ s.db = some db ∧ s.txs = ∅ ∧
      Database.Opened config.persistence.logPath place kept dropped ⟨db, s.machine⟩ := by
  have hopen := h.opened
  simp only [Session.reopen, close_start] at hopen
  cases hrun : (Database.open config).run (start machine config).machine with
  | mk outcome machine' =>
    rw [hrun] at hopen
    cases outcome with
    | error cause => cases hopen
    | ok db =>
      cases hopen
      obtain ⟨place, kept, dropped, tail, hsplits, hopened⟩ :=
        Database.opened_of_open h.enabled h.offers hrun
      exact ⟨place, kept, dropped, tail, db, hsplits, rfl, rfl, hopened⟩

/-- It is backed if the ids in the log leave room for more. -/
theorem backed (h : Starts machine config content s) :
    ∃ place kept dropped tail, Scan.Splits content kept dropped tail ∧
      ((Scan.IdsBelow kept maxTxId ∧ dropped = [] ∨
        (Scan.after (kept ++ dropped)).lastTxId.toNat < maxTxId) →
        ∃ index, Backed config.persistence.logPath place kept index s) := by
  obtain ⟨place, kept, dropped, tail, db, hsplits, hdb, htxs, hopened⟩ := h.met
  refine ⟨place, kept, dropped, tail, hsplits, fun hids => ⟨db.index, ?_⟩⟩
  have hbacked := hopened.backed hsplits hids
  refine ⟨hbacked.stored, fun db' hdb' => ?_, .of_no_tx htxs⟩
  rw [hdb] at hdb'
  cases hdb'
  exact ⟨hbacked, rfl⟩

/-- A session that has started on a log whose ids leave room for more. -/
theorem backed_of_read (h : Starts machine config content s) {log : LoadedLog} {machine' : Machine}
    (hread : (LoadedLog.read config.persistence.logPath).run machine = (.ok log, machine'))
    (hlast : log.lastTxId.toNat < maxTxId) :
    ∃ place kept index, Backed config.persistence.logPath place kept index s ∧
      log.transactions = Scan.transactions kept := by
  obtain ⟨place, kept, dropped, tail, hsplits, hbacked⟩ := h.backed
  obtain ⟨log', env, hread', htransactions, hid⟩ := LoadedLog.read_of_offers h.offers hsplits
  rw [hread'] at hread
  cases hread
  rw [hid] at hlast
  obtain ⟨index, hbacked⟩ := hbacked (Or.inr hlast)
  exact ⟨place, kept, index, hbacked, htransactions⟩

theorem backed_of_nil (h : Starts machine config [] s) :
    ∃ place, Backed config.persistence.logPath place [] ∅ s := by
  obtain ⟨place, kept, dropped, tail, hsplits, hbacked⟩ := h.backed
  obtain ⟨rfl, rfl⟩ := hsplits.eq_nil
  obtain ⟨index, hbacked⟩ := hbacked (Or.inl ⟨Or.inl rfl, rfl⟩)
  have hindex : index = ∅ := by
    have hreplayed := hbacked.stored.replayed
    rw [Scan.transactions_nil] at hreplayed
    cases hreplayed
    rfl
  rw [hindex] at hbacked
  exact ⟨place, hbacked⟩

end Starts

/-! ## A run on a new log -/

def sampleConfig : Config := ⟨"info", ⟨true, "l", .never, .of 1 0⟩⟩

/-- A machine with nothing but a log of the given content. -/
def sampleMachine (content : Bytes) : Machine :=
  ⟨Disk.fresh.put ["home", "work", "l"] (.regular (.create content)), ⟨.still 0 0, []⟩⟩

theorem holds_sampleMachine (content : Bytes) :
    (sampleMachine content).disk.Holds sampleConfig.persistence.logPath ["home", "work", "l"] content := by
  have hfree : Disk.fresh.node? ["home", "work", "l"] = none := by cbv
  refine Disk.holds_put (.create content) (by cbv) ?_ (by cbv) (File.reliable_create content)
  rw [hfree]
  exact fun h => by cases h

def stagedRecord (kind : Kind) (value : Bytes) (timestamp : UInt64) : Record :=
  ⟨"b", [107], value, kind, timestamp, 0, 0, .uncommitted⟩

def sampleRecord (element : Bytes) : Record := ⟨"b", [107], element, .push .tail, 100, 0, 0, .uncommitted⟩

def loggedRecord (txId : UInt64) (element : UInt8) (status : Status) : Record :=
  ⟨"b", [107], [element], .push .tail, 100, 0, txId, status⟩

def sampleSealed : Record := ⟨"b", [107], [97], .push .tail, 100, 0, 1, .committed⟩

theorem encode_sampleSealed : Frame.encode sampleSealed =
    [133, 200, 73, 70, 40, 0, 0, 0,
      1, 0, 0, 0, 0, 0, 0, 0, 100, 0, 0, 0, 0, 0, 0, 0, 0, 0, 0, 0, 2, 0, 3, 0, 1, 1, 0, 0, 0, 1, 0, 0, 0,
      1, 0, 0, 0, 98, 107, 97] := by
  cbv

/-- An update that pushes one element. -/
def samplePush (element : Bytes) : Action Unit :=
  .update (.use (.list "b" (.push .tail [107] [element])) fun _ => .done (.ok ()))

/-- An update that makes all its requests, whatever each of them answers. -/
def sampleUpdate (requests : List Request) : Action Unit :=
  .update (requests.foldr (fun request rest => .use (.list "b" request) fun _ => rest) (.done (.ok ())))

def sampleStart : Session := ((start (.fresh 100) sampleConfig).reopen sampleConfig).2

/-- A machine with a clock that leaps from one second to a later one. -/
def leaping (machine : Machine) : Machine :=
  { machine with env := ⟨⟨fun i => if i < 11 then 100 else 200, fun _ => 0, 0⟩, []⟩ }

def newLog : Session := ((start (leaping (.fresh 100)) sampleConfig).reopen sampleConfig).2

/-- Two pushes and an expiry in one batch, a transaction that is dropped, and a pop after a reopening. -/
def sampleFront : List (Action Unit) :=
  [sampleUpdate [.push .tail [107] [[97], [98]], .expire [107] 5], .begin "t" true,
    .use "t" (.use (.list "b" (.pop .head [107])) fun _ => .done (.ok ())), .drop "t", .reopen sampleConfig,
    sampleUpdate [.pop .head [107]]]

/-- After these the clock has leapt: a push meets the expired list and evicts it, and another finds it gone. -/
def sampleActions : List (Action Unit) :=
  sampleFront ++ [sampleUpdate [.push .tail [107] [[99]], .push .tail [107] [[100]]]]

/-- What the run commits if its ids begin with the one given. -/
def sampleCommitted (txId : UInt64) : List (UInt64 × List Record) :=
  [(txId, [sampleRecord [97], sampleRecord [98], stagedRecord .expire [53] 100]),
    (txId + 1, [stagedRecord (.pop .head) [97] 100]),
    (txId + 2, [stagedRecord .delete [] 200, stagedRecord (.push .tail) [100] 200])]

theorem newLog_starts : Starts (leaping (.fresh 100)) sampleConfig [] newLog where
  enabled := rfl
  offers := Or.inr ⟨rfl, by cbv, by cbv, Answers.reliable_reliable⟩
  opened := Prod.ext (by cbv) rfl

theorem sampleActions_stay : ∀ action ∈ sampleActions, action.StaysOn sampleConfig.persistence.logPath := by
  simp [sampleActions, sampleFront, sampleUpdate, Action.StaysOn, sampleConfig]

set_option maxRecDepth 20000 in
theorem newLog_run :
    ((commits sampleActions newLog).map (fun c => (c.txId, c.pending)), (run sampleActions newLog).2.db.isSome) =
      (sampleCommitted 1, true) := by
  cbv

theorem newLog_commits : (commits sampleActions newLog).map (fun c => (c.txId, c.pending)) = sampleCommitted 1 :=
  congrArg Prod.fst newLog_run

theorem newLog_fits : ∀ c ∈ commits sampleActions newLog,
    (∀ r ∈ c.pending, Frame.Fits r) ∧ c.txId.toNat < maxTxId := by
  have hcommitted : ∀ p ∈ sampleCommitted 1, (∀ r ∈ p.2, Frame.Fits r) ∧ p.1.toNat < maxTxId := by decide
  rw [← newLog_commits] at hcommitted
  exact List.forall_mem_map.mp hcommitted

end Session

end DurableLists

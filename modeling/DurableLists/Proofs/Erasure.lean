import DurableLists.Proofs.Session.Starts
import DurableLists.Proofs.Session.Tracks

/-!
# Only commits leave a trace

A step is an action together with the clock that it reads and the transaction that it belongs to. `follow` makes steps
one after another and answers each with what it was answered; every run of a session is such a sequence of steps
(`Session.exists_follow`). Transactions that come to commit nothing can be taken out of it: the other steps are answered
as before, and the database and the files end up as before (`Session.follow_erased`).

The two runs are compared step by step. `Alike` relates them: the database and the files are the same, and so are the
transactions that stay; of those taken out there are none. A step that stays meets the same handle in both runs
(`Alike.act`), and one that is taken out changes nothing but its own transaction (`Alike.skip`).
-/

set_option autoImplicit false

namespace DurableLists

namespace Session

open Database

variable {α : Type}

/-! ## Steps -/

/-- An action, what it reads the time from and reports to, and the name of the transaction it belongs to, if any. -/
structure Step (α : Type) where
  action : Action α
  env : Env
  owner : Option String

/-- The session as a step finds it. -/
def within (s : Session) (env : Env) : Session := { s with machine.env := env }

/-- Makes steps one after another. -/
def follow : List (Step α) → Session → List (Step α × Answer (Option α)) × Session
  | [], s => ([], s)
  | step :: steps, s =>
    let (answer, s) := act step.action (s.within step.env)
    let (answers, s) := follow steps s
    ((step, answer) :: answers, s)

/-- The name of the transaction that an action names. -/
def Action.name? : Action α → Option String
  | .begin name _ | .drop name | .use name _ => some name
  | .update _ | .view _ | .sync | .close | .reopen _ => none

/-- Whether a step belongs to the transaction that it names, if it names one. An update or a view is a transaction of
its own, under any name, and a sync belongs to none. -/
structure Step.Owned (step : Step α) : Prop where
  named : ∀ name, step.action.name? = some name → step.owner = some name
  unowned : step.action = .sync → step.owner = none

/-- Whether a step belongs to one of some transactions. -/
def Step.isOf (erased : String → Bool) (step : Step α) : Bool := step.owner.any erased

/-- Whether the steps of some transactions come to commit nothing in a run. -/
def Silent (erased : String → Bool) : List (Step α) → Session → Prop
  | [], _ => True
  | step :: steps, s =>
    (step.isOf erased = true → step.action.submissions (s.within step.env) = []) ∧
      Silent erased steps (act step.action (s.within step.env)).2

/-- Every run is made of steps, whatever transactions its updates and views are taken for. -/
theorem exists_follow (actions : List (Action α)) (s : Session) : ∃ steps : List (Step α),
    steps.map (fun step => step.action) = actions ∧ (∀ step ∈ steps, step.Owned) ∧
      (follow steps s).1.map (fun p => p.2) = (run actions s).1 ∧ (follow steps s).2 = (run actions s).2 := by
  induction actions generalizing s with
  | nil => exact ⟨[], rfl, by simp, rfl, rfl⟩
  | cons action actions ih =>
    obtain ⟨steps, hactions, howned, hanswers, hend⟩ := ih (act action s).2
    refine ⟨⟨action, s.machine.env, action.name?⟩ :: steps, by rw [List.map_cons, hactions], ?_, ?_, ?_⟩
    · refine List.forall_mem_cons.mpr ⟨⟨fun name hname => hname, fun hsync => ?_⟩, howned⟩
      have haction : action = .sync := hsync
      rw [haction]
      rfl
    · change (act action s).1 :: (follow steps (act action s).2).1.map (fun p => p.2) = _
      rw [hanswers]
      rfl
    · exact hend

/-! ## What an action leaves alone -/

variable {s t : Session} {db : Database}

theorem getElem?_begin (name : String) (writable : Bool) (s : Session) {other : String} (hother : other ≠ name) :
    (s.begin name writable).2.txs[other]? = s.txs[other]? := by
  have hkeep (txs : Std.ExtTreeMap String Tx compare) : (txs.erase name)[other]? = txs[other]? := by
    rw [Std.ExtTreeMap.getElem?_erase, if_neg (by simpa using fun e => hother e.symm)]
  obtain ⟨env, hdrop⟩ := dropTx_eq name s
  simp only [Session.begin, hdrop]
  split
  · rfl
  · split
    · exact hkeep s.txs
    · rw [Std.ExtTreeMap.getElem?_insert, if_neg (by simpa using fun e => hother e.symm)]
      exact hkeep s.txs

/-- An action leaves the transactions alone that it does not name. -/
theorem getElem?_act (action : Action α) (hkeeps : action.KeepsOpen) (s : Session) {other : String}
    (hother : action.name? ≠ some other) : (act action s).2.txs[other]? = s.txs[other]? := by
  have hne (name : String) (hname : some name ≠ some other) : ¬ compare name other = .eq := by
    intro heq
    exact hname (congrArg some (Std.LawfulEqOrd.compare_eq_iff_eq.mp heq))
  cases action with
  | close => exact hkeeps.elim
  | reopen config => exact hkeeps.elim
  | begin name writable => exact getElem?_begin name writable s fun e => hother (congrArg some e.symm)
  | drop name =>
    obtain ⟨env, hdrop⟩ := dropTx_eq name s
    rw [act, hdrop]
    exact Std.ExtTreeMap.getElem?_erase.trans (if_neg (hne name hother))
  | use name script =>
    simp only [act, withValue, onTx]
    split
    · rfl
    · rfl
    · exact Std.ExtTreeMap.getElem?_insert.trans (if_neg (hne name hother))
  | update script =>
    simp only [act, withValue, Session.update, onDatabase]
    split
    · rfl
    · split <;> rfl
  | view script =>
    simp only [act, withValue, Session.view, onDatabase]
    split <;> rfl
  | sync =>
    simp only [act, withoutValue, onDatabase]
    split <;> rfl

theorem tracks_unchanged : Tracks fun before ts after =>
    ts = [] → after.db = before.db ∧ after.machine.disk = before.machine.disk where
  quiet hdb hdisk _ := ⟨hdb, hdisk⟩
  trans hfirst hsecond hnone := by
    obtain ⟨hnone, hnone'⟩ := List.append_eq_nil_iff.mp hnone
    obtain ⟨hdb, hdisk⟩ := hfirst hnone
    obtain ⟨hdb', hdisk'⟩ := hsecond hnone'
    exact ⟨hdb'.trans hdb, hdisk'.trans hdisk⟩
  commit htx hpending _ hnone := by
    rw [Handle.submissions_writing htx hpending] at hnone
    cases hnone

/-- An action that comes to commit nothing, and does not sync, leaves the database and the files as they are. -/
theorem act_of_submits_nothing (action : Action α) (hkeeps : action.KeepsOpen) (hsync : action ≠ .sync)
    (hs : s.Sound) (hdb : s.db = some db) (hnone : action.submissions s = []) :
    (act action s).2.db = some db ∧ (act action s).2.machine.disk = s.machine.disk := by
  obtain ⟨db', hdb', hunchanged⟩ :=
    tracks_act tracks_unchanged action (fun hsync' => absurd hsync' hsync) hkeeps hs hdb
  obtain ⟨hsame, hdisk⟩ := hunchanged hnone
  rw [show db' = db from hsame] at hdb'
  exact ⟨hdb', hdisk⟩

theorem db_act (action : Action α) (hkeeps : action.KeepsOpen) (hs : s.Sound) (hdb : s.db = some db) :
    ∃ db', (act action s).2.db = some db' := by
  have htracks : Tracks fun _ _ _ => True := ⟨fun _ _ => trivial, fun _ _ => trivial, fun _ _ _ => trivial⟩
  obtain ⟨db', hdb', -⟩ := tracks_act htracks action (fun _ _ => trivial) hkeeps hs hdb
  exact ⟨db', hdb'⟩

/-! ## Two runs -/

/-- A session, and one without some of its transactions. -/
structure Alike (erased : String → Bool) (s t : Session) : Prop where
  db : t.db = s.db
  disk : t.machine.disk = s.machine.disk
  kept : ∀ name, erased name = false → t.txs[name]? = s.txs[name]?
  gone : ∀ name, erased name = true → t.txs[name]? = none

variable {erased : String → Bool}

/-- With fewer transactions, no more of them write. -/
theorem Alike.isWriting (h : Alike erased s t) (hidle : s.isWriting = false) : t.isWriting = false := by
  rw [isWriting_eq_false_iff] at hidle ⊢
  intro name tx htx
  cases herased : erased name with
  | true =>
    rw [h.gone name herased] at htx
    cases htx
  | false =>
    rw [h.kept name herased] at htx
    exact hidle name tx htx

theorem Alike.insert (h : Alike erased s t) {name : String} (hname : erased name = false) (tx : Tx)
    {s' t' : Session} (hdb : t'.db = s'.db) (hdisk : t'.machine.disk = s'.machine.disk)
    (hs' : s'.txs = s.txs.insert name tx) (ht' : t'.txs = t.txs.insert name tx) : Alike erased s' t' := by
  refine ⟨hdb, hdisk, fun other hother => ?_, fun other hother => ?_⟩
  · rw [hs', ht', Std.ExtTreeMap.getElem?_insert, Std.ExtTreeMap.getElem?_insert, h.kept other hother]
  · have hne : name ≠ other := by
      rintro rfl
      rw [hname] at hother
      cases hother
    rw [ht', Std.ExtTreeMap.getElem?_insert, if_neg (by simpa using hne), h.gone other hother]

theorem Alike.dropTx (h : Alike erased s t) (name : String) : Alike erased (s.dropTx name) (t.dropTx name) := by
  obtain ⟨env, hdrop⟩ := dropTx_eq name s
  obtain ⟨env', hdrop'⟩ := dropTx_eq name t
  rw [hdrop, hdrop']
  refine ⟨h.db, h.disk, fun other hother => ?_, fun other hother => ?_⟩
  · simp only [Std.ExtTreeMap.getElem?_erase, h.kept other hother]
  · simp only [Std.ExtTreeMap.getElem?_erase, h.gone other hother, ite_self]

theorem Alike.begin (h : Alike erased s t) {name : String} (hname : erased name = false) (writable : Bool)
    (hwaits : (s.begin name writable).1 ≠ .error .wouldWait) :
    (t.begin name writable).1 = (s.begin name writable).1 ∧
      Alike erased (s.begin name writable).2 (t.begin name writable).2 := by
  have hdropped := h.dropTx name
  rw [Session.begin] at hwaits
  simp only [Session.begin, h.db]
  cases hclosed : s.db.isNone with
  | true =>
    simp only [if_true]
    exact ⟨trivial, h⟩
  | false =>
    simp only [hclosed, Bool.false_eq_true, if_false] at hwaits ⊢
    cases hrefused : writable && (s.dropTx name).isWriting with
    | true =>
      simp only [hrefused, if_true] at hwaits
      exact absurd rfl hwaits
    | false =>
      have hrefused' : (writable && (t.dropTx name).isWriting) = false := by
        cases writable with
        | false => rfl
        | true => exact hdropped.isWriting hrefused
      simp only [hrefused', Bool.false_eq_true, if_false]
      exact ⟨trivial, hdropped.insert hname (Tx.begin writable) hdropped.db hdropped.disk rfl rfl⟩

theorem Alike.onDatabase (h : Alike erased s t) (hmachine : t.machine = s.machine) (call : Attempt Running α) :
    (t.onDatabase call).1 = (s.onDatabase call).1 ∧ Alike erased (s.onDatabase call).2 (t.onDatabase call).2 := by
  simp only [Session.onDatabase, h.db, hmachine]
  split
  · exact ⟨rfl, h⟩
  · exact ⟨rfl, rfl, rfl, h.kept, h.gone⟩

theorem Alike.use (h : Alike erased s t) (hmachine : t.machine = s.machine) {name : String}
    (hname : erased name = false) (script : Script α) :
    (t.onTx name script.run).1 = (s.onTx name script.run).1 ∧
      Alike erased (s.onTx name script.run).2 (t.onTx name script.run).2 := by
  simp only [onTx, h.db, h.kept name hname, hmachine]
  split
  · exact ⟨rfl, h⟩
  · exact ⟨rfl, h⟩
  · exact ⟨rfl, h.insert hname _ rfl rfl rfl rfl⟩

/-- A step that stays is answered as before, and the two sessions stay alike. -/
theorem Alike.act (h : Alike erased s t) (hmachine : t.machine = s.machine) (action : Action α)
    (hkeeps : action.KeepsOpen) (hnamed : ∀ name, action.name? = some name → erased name = false)
    (hwaits : (act action s).1 ≠ .error .wouldWait) :
    (act action t).1 = (act action s).1 ∧ Alike erased (act action s).2 (act action t).2 := by
  cases action with
  | close => exact hkeeps.elim
  | reopen config => exact hkeeps.elim
  | drop name => exact ⟨rfl, h.dropTx name⟩
  | begin name writable =>
    have hbegin : (s.begin name writable).1 ≠ .error .wouldWait := by
      intro hrefused
      refine hwaits ?_
      simp only [Session.act, withoutValue, hrefused]
      rfl
    obtain ⟨hanswer, halike⟩ := h.begin (hnamed name rfl) writable hbegin
    simp only [Session.act, withoutValue, hanswer]
    exact ⟨trivial, halike⟩
  | use name script =>
    obtain ⟨hanswer, halike⟩ := h.use hmachine (hnamed name rfl) script
    simp only [Session.act, withValue, hanswer]
    exact ⟨trivial, halike⟩
  | update script =>
    cases hwriting : s.isWriting with
    | true =>
      refine absurd ?_ hwaits
      simp only [Session.act, withValue, Session.update, hwriting, if_true]
      rfl
    | false =>
      obtain ⟨hanswer, halike⟩ := h.onDatabase hmachine (Database.update script.run)
      simp only [Session.act, withValue, Session.update, hwriting, h.isWriting hwriting, Bool.false_eq_true,
        if_false, hanswer]
      exact ⟨trivial, halike⟩
  | view script =>
    obtain ⟨hanswer, halike⟩ := h.onDatabase hmachine (Database.view script.run)
    simp only [Session.act, withValue, Session.view, hanswer]
    exact ⟨trivial, halike⟩
  | sync =>
    obtain ⟨hanswer, halike⟩ := h.onDatabase hmachine Database.sync
    simp only [Session.act, withoutValue, hanswer]
    exact ⟨trivial, halike⟩

/-- A step that is taken out leaves the sessions alike, if it comes to commit nothing. -/
theorem Alike.skip (h : Alike erased s t) (action : Action α) (hkeeps : action.KeepsOpen)
    (hsync : action ≠ .sync) (hnamed : ∀ name, action.name? = some name → erased name = true) (hs : s.Sound)
    (hdb : s.db = some db) (hnone : action.submissions s = []) : Alike erased (Session.act action s).2 t := by
  obtain ⟨hdb', hdisk⟩ := act_of_submits_nothing action hkeeps hsync hs hdb hnone
  refine ⟨?_, ?_, fun name hname => ?_, h.gone⟩
  · rw [hdb', h.db, hdb]
  · rw [hdisk, h.disk]
  · rw [h.kept name hname, getElem?_act action hkeeps s]
    intro hname'
    rw [hnamed name hname'] at hname
    cases hname

/-! ## Taking transactions out -/

theorem follow_append (before after : List (Step α)) (s : Session) : follow (before ++ after) s =
    ((follow before s).1 ++ (follow after (follow before s).2).1, (follow after (follow before s).2).2) := by
  induction before generalizing s with
  | nil => rfl
  | cons step before ih =>
    simp only [List.cons_append, follow, ih]

theorem Alike.within (h : Alike erased s t) (env : Env) : Alike erased (s.within env) (t.within env) :=
  ⟨h.db, h.disk, h.kept, h.gone⟩

theorem Sound.within (h : s.Sound) (env : Env) : (s.within env).Sound := ⟨h.drafts, h.single⟩

/-- The induction over the steps, with both sessions. -/
theorem Alike.follow (steps : List (Step α)) (h : Alike erased s t) (hs : s.Sound) (hdb : s.db = some db)
    (hkeeps : ∀ step ∈ steps, step.action.KeepsOpen) (howned : ∀ step ∈ steps, step.Owned)
    (hwaits : ∀ p ∈ (follow steps s).1, p.2 ≠ .error .wouldWait) (hsilent : Silent erased steps s) :
    (Session.follow (steps.filter fun step => !step.isOf erased) t).1 =
        (Session.follow steps s).1.filter (fun p => !p.1.isOf erased) ∧
      Alike erased (Session.follow steps s).2
        (Session.follow (steps.filter fun step => !step.isOf erased) t).2 := by
  induction steps generalizing s t db with
  | nil => exact ⟨rfl, h⟩
  | cons step steps ih =>
    obtain ⟨hkeepsNow, hkeeps⟩ := List.forall_mem_cons.mp hkeeps
    obtain ⟨hownedNow, howned⟩ := List.forall_mem_cons.mp howned
    obtain ⟨hwaitsNow, hwaits⟩ := List.forall_mem_cons.mp hwaits
    obtain ⟨hsilentNow, hsilent⟩ := hsilent
    have halike := h.within step.env
    have hsound := hs.within step.env
    have hmachine : (t.within step.env).machine = (s.within step.env).machine := by
      simp only [Session.within, h.disk]
    obtain ⟨db', hdb'⟩ := db_act step.action hkeepsNow hsound (show (s.within step.env).db = some db from hdb)
    have hnext := sound_act step.action hsound
    have hnamed (name : String) (hname : step.action.name? = some name) :
        step.isOf erased = erased name := by
      rw [Step.isOf, hownedNow.named name hname]
      rfl
    cases herased : step.isOf erased with
    | true =>
      have hsync : step.action ≠ .sync := by
        intro hsync
        rw [Step.isOf, hownedNow.unowned hsync] at herased
        cases herased
      have hskip := halike.skip step.action hkeepsNow hsync
        (fun name hname => (hnamed name hname).symm.trans herased) hsound hdb (hsilentNow herased)
      -- The other run stays where it was, so only the clock that this step has read comes in between.
      have hback : Alike erased (Session.act step.action (s.within step.env)).2 t :=
        ⟨hskip.db, hskip.disk, hskip.kept, hskip.gone⟩
      obtain ⟨hanswers, hend⟩ := ih hback hnext hdb' hkeeps howned hwaits hsilent
      simp only [List.filter_cons, herased, Bool.not_true, Bool.false_eq_true, if_false, Session.follow]
      exact ⟨hanswers, hend⟩
    | false =>
      obtain ⟨hanswer, hact⟩ := halike.act hmachine step.action hkeepsNow
        (fun name hname => (hnamed name hname).symm.trans herased) hwaitsNow
      obtain ⟨hanswers, hend⟩ := ih hact hnext hdb' hkeeps howned hwaits hsilent
      simp only [List.filter_cons, herased, Bool.not_false, if_true, Session.follow]
      exact ⟨by rw [hanswer, hanswers], hend⟩

/-- From any moment on at which a session has a database open, along any steps that open no other and of which none
would wait. Transactions that come to commit nothing, and of which none is open at the start, can be taken out of the
steps: the others are answered as before, and the committed index, the next id, the writer of the log and the files are
in the end as before. And whatever transaction has come to commit nothing until a step of another one, be it a read or
not: with or without its steps until then, that step is answered alike. -/
theorem follow_erased (setup : List (Action α)) (machine : Machine) (config : Config)
    (hreached : (run setup (start machine config)).2 = s) (hdb : s.db = some db) (steps : List (Step α))
    (hkeeps : ∀ step ∈ steps, step.action.KeepsOpen) (howned : ∀ step ∈ steps, step.Owned)
    (hwaits : ∀ p ∈ (follow steps s).1, p.2 ≠ .error .wouldWait) :
    (∀ erased : String → Bool, (∀ name, erased name = true → s.txs[name]? = none) → Silent erased steps s →
      (follow (steps.filter fun step => !step.isOf erased) s).1 =
          (follow steps s).1.filter (fun p => !p.1.isOf erased) ∧
        (follow (steps.filter fun step => !step.isOf erased) s).2.db = (follow steps s).2.db ∧
        (follow (steps.filter fun step => !step.isOf erased) s).2.machine.disk =
          (follow steps s).2.machine.disk) ∧
    ∀ (before : List (Step α)) (read : Step α) (after : List (Step α)) (writer : String),
      steps = before ++ read :: after → read.isOf (· == writer) = false → s.txs[writer]? = none →
      Silent (· == writer) before s →
      (act read.action ((follow (before.filter fun step => !step.isOf (· == writer)) s).2.within read.env)).1 =
        (act read.action ((follow before s).2.within read.env)).1 := by
  have hs : s.Sound := by
    rw [← hreached]
    exact sound_run setup (.start machine config)
  refine ⟨fun erased hfresh hsilent => ?_, fun before read after writer hsteps hread hfresh hsilent => ?_⟩
  · have halike : Alike erased s s := ⟨rfl, rfl, fun _ _ => rfl, hfresh⟩
    obtain ⟨hanswers, hend⟩ := halike.follow steps hs hdb hkeeps howned hwaits hsilent
    exact ⟨hanswers, hend.db, hend.disk⟩
  · subst hsteps
    rw [follow_append] at hwaits
    obtain ⟨hkeeps, hkeepsRead⟩ := List.forall_mem_append.mp hkeeps
    obtain ⟨howned, hownedRead⟩ := List.forall_mem_append.mp howned
    obtain ⟨hwaits, hwaitsRead⟩ := List.forall_mem_append.mp hwaits
    have hgone (name : String) (hname : (name == writer) = true) : s.txs[name]? = none := by
      rw [eq_of_beq hname]
      exact hfresh
    have halike : Alike (· == writer) s s := ⟨rfl, rfl, fun _ _ => rfl, hgone⟩
    obtain ⟨-, hend⟩ := halike.follow before hs hdb hkeeps howned hwaits hsilent
    have hmeet := hend.within read.env
    refine (hmeet.act ?_ read.action (hkeepsRead read (by simp)) (fun name hname => ?_)
      (hwaitsRead (read, _) (by simp [follow]))).1
    · simp only [Session.within, hend.disk]
    · rw [← hread, Step.isOf, (hownedRead read (by simp)).named name hname]
      rfl

/-! ## A push that is dropped -/

def sampleStep (action : Action Unit) (second : UInt64) : Step Unit :=
  ⟨action, ⟨.still second 0, []⟩, action.name?⟩

/-- A read of the list that the samples push to. -/
def sampleRead : Action Unit := .use "r" (.use (.list "b" (.range [107] 0 (-1))) fun
  | .ok _ => .done (.ok ())
  | .error e => .done (.error e))

/-- While one transaction pushes, another one reads; the first one is dropped, and an update pushes. -/
def sampleSteps : List (Step Unit) :=
  [sampleStep (.begin "w" true) 100,
    sampleStep (.use "w" (.use (.list "b" (.push .tail [107] [[97]])) fun _ => .done (.ok ()))) 101,
    sampleStep (.begin "r" false) 102, sampleStep sampleRead 103, sampleStep (.drop "w") 104,
    sampleStep (samplePush [98]) 105]

set_option maxRecDepth 20000 in
theorem map_follow_sampleSteps : (follow sampleSteps sampleStart).1.map (fun p => p.2) =
    [.ok (.ok none), .ok (.ok (some ())), .ok (.ok none), .ok (.error .bucketNotFound), .ok (.ok none),
      .ok (.ok (some ()))] := by
  cbv

theorem silent_sampleSteps : Silent (· == "w") sampleSteps sampleStart := by
  have hpush (s : Session) : Action.submissions s (.use "w"
      (.use (.list "b" (.push .tail [107] [[97]])) fun _ => .done (.ok ())) : Action Unit) = [] := by
    rw [Action.submissions]
    split <;> rfl
  refine ⟨fun _ => rfl, fun _ => hpush _, fun _ => rfl, fun h => ?_, fun _ => rfl, fun h => ?_, trivial⟩
  · cases h
  · cases h

/-- Without the transaction that pushes, the database ends up as with it, and the read is answered alike. -/
theorem follow_sampleSteps :
    (follow (sampleSteps.filter fun step => !step.isOf (· == "w")) sampleStart).2.db =
        (follow sampleSteps sampleStart).2.db ∧
      (act sampleRead ((follow ((sampleSteps.take 3).filter fun step => !step.isOf (· == "w")) sampleStart).2.within
          ⟨.still 103 0, []⟩)).1 =
        (act sampleRead ((follow (sampleSteps.take 3) sampleStart).2.within ⟨.still 103 0, []⟩)).1 := by
  have hreached : (run ([.reopen sampleConfig] : List (Action Unit))
      (start (.fresh 100) sampleConfig)).2 = sampleStart := by
    rw [sampleStart]
    rfl
  obtain ⟨db, hdb⟩ : ∃ db, sampleStart.db = some db := Option.isSome_iff_exists.mp (by cbv)
  have hfresh : sampleStart.txs["w"]? = none := by cbv
  have hkeeps : ∀ step ∈ sampleSteps, step.action.KeepsOpen := by
    simp [sampleSteps, sampleStep, sampleRead, samplePush, Action.KeepsOpen]
  have howned : ∀ step ∈ sampleSteps, step.Owned := by
    intro step hstep
    have hsync : step.action ≠ .sync := by
      revert step
      simp [sampleSteps, sampleStep, sampleRead, samplePush]
    have howner : step.owner = step.action.name? := by
      revert step
      simp [sampleSteps, sampleStep]
    exact ⟨fun name hname => howner.trans hname, fun h => absurd h hsync⟩
  have hwaits : ∀ p ∈ (follow sampleSteps sampleStart).1, p.2 ≠ .error .wouldWait := by
    intro p hp
    have hanswer := List.mem_map_of_mem (f := fun p => p.2) hp
    rw [map_follow_sampleSteps] at hanswer
    intro hwait
    simp [hwait] at hanswer
  obtain ⟨herased, hread⟩ := follow_erased [.reopen sampleConfig] (.fresh 100) sampleConfig hreached hdb
    sampleSteps hkeeps howned hwaits
  have hgone (name : String) (hname : (name == "w") = true) : sampleStart.txs[name]? = none := by
    rw [eq_of_beq hname]
    exact hfresh
  obtain ⟨-, hend, -⟩ := herased (· == "w") hgone silent_sampleSteps
  obtain ⟨hbegin, hpush, hreader, -⟩ := silent_sampleSteps
  exact ⟨hend, hread (sampleSteps.take 3) (sampleStep sampleRead 103) (sampleSteps.drop 4) "w" rfl rfl hfresh
    ⟨hbegin, hpush, hreader, trivial⟩⟩

end Session

end DurableLists

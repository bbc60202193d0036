import DurableLists.Proofs.Session.Starts
import DurableLists.Proofs.Session.Submissions
import DurableLists.Proofs.Tx.Shows

/-!
# A list is its elements

A user works on one list in writing transactions that are committed one after another, and on whatever else in
between; a transaction may do without the list altogether. Then the list is a plain list: every operation answers, and
makes of the list, what it answers and makes of the elements alone (`Session.answers_of_plain`), however the operations
are split into transactions.

What carries the proof is that the transaction of the user shows the list (`Session.Shows`). An operation on the list
keeps that by `ListOp.run_perform`, a request about something else by `Tx.Shows.of_grows`, and a commit together with
the beginning of the next transaction because the index is then what the transaction has seen
(`Database.Handle.store?_commit`).
-/

set_option autoImplicit false

namespace DurableLists

namespace Session

open Database

/-! ## Turns -/

/-- What a user does next in a writing transaction. -/
inductive Turn where
  /-- Makes an operation on the list. -/
  | own (op : ListOp)
  /-- Makes a request about something else. -/
  | elsewhere (bucket : String) (request : Request)
  /-- Commits the transaction and begins the next one. -/
  | next

/-- One use of a transaction. -/
def ask (name : String) (u : Use) : Action Reply := .use name (Script.ask u)

def Turn.actions (name bucket : String) (key : Bytes) : Turn → List (Action Reply)
  | .own op => [ask name (.list bucket (op.request key))]
  | .elsewhere other request => [ask name (.list other request)]
  | .next => [ask name .commit, .begin name true]

/-- Whether a request about something else is about another bucket or another key. -/
def Turn.Apart (bucket : String) (key : Bytes) : Turn → Prop
  | .elsewhere other request => other ≠ bucket ∨ request.key? ≠ some key
  | .own _ | .next => True

/-- What turns make of a plain list. -/
def plain (turns : List Turn) (items : List Bytes) : List Bytes :=
  turns.foldl (fun items turn =>
    match turn with
    | .own op => (op.onPlain items).2
    | .elsewhere .. | .next => items) items

/-- The session after a transaction has begun and turns have been made in it and in those that follow it. -/
def play (name bucket : String) (key : Bytes) (turns : List Turn) (s : Session) : Session :=
  (run (.begin name true :: turns.flatMap (Turn.actions name bucket key)) s).2

/-- Whether every commit among turns succeeds. -/
def Committed (name bucket : String) (key : Bytes) : List Turn → Session → Prop
  | [], _ => True
  | turn :: turns, s =>
    (turn = .next → (act (ask name .commit) s).1 = .ok (.ok (some .done))) ∧
      Committed name bucket key turns (run (turn.actions name bucket key) s).2

/-! ## One turn -/

variable {s : Session} {db : Database} {name bucket : String} {key : Bytes} {items : List Bytes} {tx : Tx}

/-- One use answers as it does on the handle of the transaction. -/
theorem act_ask (hdb : s.db = some db) (htx : s.txs[name]? = some tx) (u : Use) :
    act (ask name u) s =
      (.ok ((u.perform.run ⟨tx, db, s.machine⟩).1.map some),
        { s with
          db := some (u.perform.run ⟨tx, db, s.machine⟩).2.db
          machine := (u.perform.run ⟨tx, db, s.machine⟩).2.machine
          txs := s.txs.insert name (u.perform.run ⟨tx, db, s.machine⟩).2.tx }) := by
  have hscript : (Script.ask u).run.run ⟨tx, db, s.machine⟩ = u.perform.run ⟨tx, db, s.machine⟩ := by
    rw [Script.ask, Script.run, Attempt.run_bind, Attempt.run_outcome]
    rfl
  simp only [act, ask, withValue, onTx, hdb, htx, hscript]
  rfl

/-- Whether a transaction of a sound session shows a list. -/
structure Shows (name bucket : String) (key : Bytes) (items : List Bytes) (s : Session) : Prop where
  sound : s.Sound
  shown : ∃ db tx, s.db = some db ∧ s.txs[name]? = some tx ∧ tx.Shows db.index bucket key items

/-- A transaction that begins where no other one writes shows the committed list. -/
theorem shows_begin (hs : s.Sound) (hdb : s.db = some db)
    (halone : ∀ (other : String) (later : Tx), other ≠ name → s.txs[other]? = some later →
      later.isWritable = false)
    {store : Store} (hstore : db.index.store? bucket = some store) (hlist : store.list? key = some items)
    (hexpiry : store.expiry? key = none) : (s.begin name true).2.Shows name bucket key items := by
  refine ⟨hs.begin name true, ?_⟩
  obtain ⟨env, hdrop⟩ := dropTx_eq name s
  have hidle : (s.dropTx name).isWriting = false := by
    rw [isWriting_eq_false_iff, hdrop]
    intro other later hlater
    simp only at hlater
    rw [Std.ExtTreeMap.getElem?_erase] at hlater
    split at hlater
    · cases hlater
    · rename_i hother
      exact halone other later (fun e => hother (by simp [e])) hlater
  have hbegin : (s.begin name true).2 =
      { s.dropTx name with txs := (s.dropTx name).txs.insert name (Tx.begin true) } := by
    simp only [Session.begin, hdb, hidle, Option.isNone_some, Bool.and_false, Bool.false_eq_true, if_false]
  rw [hbegin, hdrop]
  refine ⟨db, Tx.begin true, hdb, Std.ExtTreeMap.getElem?_insert_self, rfl, store, ?_, hlist, hexpiry⟩
  rw [(Tx.sound_begin db.index true).visible_of_idle rfl bucket]
  exact hstore

theorem Shows.own (h : s.Shows name bucket key items) (hkey : containsSeparator key = false) (op : ListOp) :
    (act (ask name (.list bucket (op.request key))) s).1 = .ok ((op.onPlain items).1.map some) ∧
      (act (ask name (.list bucket (op.request key))) s).2.Shows name bucket key (op.onPlain items).2 := by
  have hsound := sound_act (ask name (.list bucket (op.request key))) h.sound
  obtain ⟨db, tx, hdb, htx, hshows⟩ := h.shown
  obtain ⟨w, hrun, hshows⟩ := op.run_perform hkey hshows s.machine.env
  have hperform : (Use.list bucket (op.request key)).perform.run ⟨tx, db, s.machine⟩ =
      ((op.onPlain items).1, ⟨w.tx, db, { s.machine with env := w.env }⟩) := by
    simp only [Use.perform, Handle.onTx, Attempt.run_ofFn, hrun]
  have hact := act_ask hdb htx (.list bucket (op.request key))
  rw [hperform] at hact
  rw [hact] at hsound ⊢
  exact ⟨rfl, hsound, db, w.tx, rfl, Std.ExtTreeMap.getElem?_insert_self, hshows⟩

theorem Shows.elsewhere (h : s.Shows name bucket key items) {other : String} {request : Request}
    (hapart : other ≠ bucket ∨ request.key? ≠ some key) :
    (act (ask name (.list other request)) s).2.Shows name bucket key items := by
  have hsound := sound_act (ask name (.list other request)) h.sound
  obtain ⟨db, tx, hdb, htx, hshows⟩ := h.shown
  have hgrows := request.grows_perform db.index other ⟨tx, s.machine.env⟩
  rw [act_ask hdb htx] at hsound ⊢
  exact ⟨hsound, db, _, rfl, Std.ExtTreeMap.getElem?_insert_self, hshows.of_grows hapart hgrows⟩

/-- The transaction after a commit shows the list that the one before has committed. -/
theorem Shows.next (h : s.Shows name bucket key items)
    (hcommit : (act (ask name .commit) s).1 = .ok (.ok (some .done))) :
    ((act (ask name .commit) s).2.begin name true).2.Shows name bucket key items := by
  have hsound := sound_act (ask name .commit) h.sound
  obtain ⟨db, tx, hdb, htx, hwrites, store, hstore, hlist, hexpiry⟩ := h.shown
  have hact := act_ask hdb htx .commit
  rw [hact] at hcommit hsound ⊢
  have hok : (Handle.commit.run ⟨tx, db, s.machine⟩).1 = .ok () := by
    rw [Use.perform, Attempt.run_bind] at hcommit
    revert hcommit
    rcases Handle.commit.run ⟨tx, db, s.machine⟩ with ⟨e | _, after⟩
    · intro hcommit
      cases hcommit
    · exact fun _ => rfl
  have hindex := Handle.store?_commit (h := ⟨tx, db, s.machine⟩) (h.sound.drafts db name tx hdb htx) hok bucket
  refine shows_begin hsound rfl (fun other later hother hlater => ?_) ?_ hlist hexpiry
  · simp only at hlater
    rcases of_getElem?_insert hlater with ⟨rfl, -⟩ | ⟨-, hlater⟩
    · exact absurd rfl hother
    · exact h.sound.single.alone htx hwrites hother hlater
  · rw [Use.perform, Attempt.state_run_bind_pure]
    exact hindex.trans hstore

/-! ## All turns -/

theorem run_append {α : Type} (actions later : List (Action α)) (s : Session) :
    (run (actions ++ later) s).2 = (run later (run actions s).2).2 := by
  induction actions generalizing s with
  | nil => rfl
  | cons action actions ih => exact ih (act action s).2

theorem Shows.turns (h : s.Shows name bucket key items) (hkey : containsSeparator key = false) (turns : List Turn)
    (hapart : ∀ turn ∈ turns, turn.Apart bucket key) (hcommitted : Committed name bucket key turns s) :
    (run (turns.flatMap (Turn.actions name bucket key)) s).2.Shows name bucket key (plain turns items) := by
  induction turns generalizing s items with
  | nil => exact h
  | cons turn turns ih =>
    obtain ⟨hapart, hrest⟩ := List.forall_mem_cons.mp hapart
    obtain ⟨hcommit, hcommitted⟩ := hcommitted
    cases turn with
    | own op => exact ih (h.own hkey op).2 hrest hcommitted
    | elsewhere other request => exact ih (h.elsewhere hapart) hrest hcommitted
    | next => exact ih (h.next (hcommit rfl)) hrest hcommitted

/-- From any moment on at which a session has a database open and no transaction writes, a list without an expiry
is worked on in transactions that are committed one after another, with requests about other lists in between. Then
the next operation answers what it answers on the plain list, and after it the whole list is shown as the plain list
is. -/
theorem answers_of_plain (setup : List (Action Reply)) (machine : Machine) (config : Config)
    (hreached : (run setup (start machine config)).2 = s) (hdb : s.db = some db) (hidle : s.isWriting = false)
    {store : Store} (hstore : db.index.store? bucket = some store) (hlist : store.list? key = some items)
    (hexpiry : store.expiry? key = none) (hkey : containsSeparator key = false) (name : String) (turns : List Turn)
    (hapart : ∀ turn ∈ turns, turn.Apart bucket key)
    (hcommitted : Committed name bucket key turns (s.begin name true).2) (op : ListOp) :
    (act (ask name (.list bucket (op.request key))) (play name bucket key turns s)).1 =
        .ok ((op.onPlain (plain turns items)).1.map some) ∧
      (act (ask name (.list bucket (.range key 0 (-1)))) (play name bucket key (turns ++ [.own op]) s)).1 =
        .ok (.ok (some (.values (plain (turns ++ [.own op]) items)))) := by
  have hs : s.Sound := by
    rw [← hreached]
    exact sound_run setup (.start machine config)
  have hbegun : (s.begin name true).2.Shows name bucket key items :=
    shows_begin hs hdb (fun other later _ hlater => isWriting_eq_false_iff.mp hidle other later hlater) hstore
      hlist hexpiry
  have hplayed : (play name bucket key turns s).Shows name bucket key (plain turns items) :=
    hbegun.turns hkey turns hapart hcommitted
  obtain ⟨hanswer, hnext⟩ := hplayed.own hkey op
  refine ⟨hanswer, ?_⟩
  have hplay : play name bucket key (turns ++ [.own op]) s =
      (act (ask name (.list bucket (op.request key))) (play name bucket key turns s)).2 := by
    rw [play, List.flatMap_append, ← List.cons_append, run_append]
    rfl
  have hplain : plain (turns ++ [.own op]) items = (op.onPlain (plain turns items)).2 := by
    rw [plain, List.foldl_append]
    rfl
  have hall := (hnext.own hkey (.range 0 (-1))).1
  rw [ListOp.onPlain_range_all] at hall
  rw [hplay, hplain]
  exact hall

/-! ## Two transactions on a list of two elements -/

/-- A list of two elements, which an update has pushed. -/
def listedActions : List (Action Reply) :=
  [.reopen sampleConfig, .update (Script.ask (.list "b" (.push .tail [107] [[97], [98]])))]

def listedSession : Session := (run listedActions (start (.fresh 100) sampleConfig)).2

/-- A push, another list beside it, a commit, and a removal from the tail. -/
def sampleTurns : List Turn :=
  [.own (.push .head [[97]]), .elsewhere "b" (.push .tail [106] [[1]]), .next, .own (.remove (-1) [97])]

set_option maxRecDepth 20000 in
theorem listed_store : (listedSession.db.bind fun db => db.index.store? "b").map (fun store =>
    (store.list? [107], store.expiry? [107])) = some (some [[97], [98]], none) := by
  cbv

set_option maxRecDepth 20000 in
theorem sample_commit : (act (ask "t" .commit)
    (run ((sampleTurns.take 2).flatMap (Turn.actions "t" "b" [107])) (listedSession.begin "t" true).2).2).1 =
      .ok (.ok (some .done)) := by
  cbv

/-- Of the two equal elements the removal takes the one that is nearer to the tail, and the pop takes the last one. -/
theorem pop_after_sampleTurns :
    (act (ask "t" (.list "b" (.pop .tail [107]))) (play "t" "b" [107] sampleTurns listedSession)).1 =
        .ok (.ok (some (.value [98]))) ∧
      (act (ask "t" (.list "b" (.range [107] 0 (-1))))
        (play "t" "b" [107] (sampleTurns ++ [.own (.pop .tail)]) listedSession)).1 =
        .ok (.ok (some (.values [[97]]))) := by
  have hreached : (run listedActions (start (.fresh 100) sampleConfig)).2 = listedSession := by
    rw [listedSession]
  have hidle : listedSession.isWriting = false := by cbv
  obtain ⟨store, hstore, hshown⟩ := Option.map_eq_some_iff.mp listed_store
  obtain ⟨db, hdb, hstore⟩ := Option.bind_eq_some_iff.mp hstore
  obtain ⟨hlist, hexpiry⟩ := Prod.mk.inj hshown
  have hapart : ∀ turn ∈ sampleTurns, turn.Apart "b" [107] := by
    simp [sampleTurns, Turn.Apart, Request.key?]
  have hcommitted : Committed "t" "b" [107] sampleTurns (listedSession.begin "t" true).2 := by
    refine ⟨?_, ?_, fun _ => sample_commit, ?_, trivial⟩ <;> (intro hturn; cases hturn)
  exact answers_of_plain listedActions (.fresh 100) sampleConfig hreached hdb hidle hstore hlist hexpiry
    (by decide) "t" sampleTurns hapart hcommitted (.pop .tail)

end Session

end DurableLists

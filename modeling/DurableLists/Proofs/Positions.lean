import Mathlib.Data.Finset.Card
import DurableLists.Proofs.Tx.Live

/-!
# Removal by positions

Positions to remove may be listed in any order, more than once, and beyond the list. What counts are the distinct ones
that address an element (`ListOp.addressed`). So many elements a removal answers to have removed, the list loses and a
replay of the record takes out; the record lists the positions in order and once each
(`Request.removeAt_exact`). That all of it depends on nothing but the set of positions comes from their normal form
(`IndexSet.normalize_congr`).
-/

set_option autoImplicit false

namespace DurableLists

namespace IndexSet

variable {indexes others : List Int64}

theorem length_normalize_le (indexes : List Int64) : (normalize indexes).length ≤ indexes.length :=
  ((nodup_normalize indexes).subperm fun _ => mem_normalize_iff.mp).length_le

/-- Two lists with the same members have one normal form. -/
theorem normalize_congr (h : ∀ i, i ∈ others ↔ i ∈ indexes) : normalize others = normalize indexes := by
  have hmem (i : Int64) : i ∈ normalize others ↔ i ∈ normalize indexes := by
    rw [mem_normalize_iff, mem_normalize_iff, h]
  have hperm := (List.perm_ext_iff_of_nodup (nodup_normalize others) (nodup_normalize indexes)).mpr hmem
  refine List.Perm.eq_of_pairwise (fun i j _ _ hij hji => ?_) (pairwise_normalize others)
    (pairwise_normalize indexes) hperm
  exact absurd (Int64.lt_trans hij hji) Int64.lt_irrefl

end IndexSet

namespace ListOp

/-- The distinct positions of those listed that address an element. -/
def addressed (indexes : List Int64) (items : List Bytes) : Finset Int64 :=
  indexes.toFinset.filter fun index => 0 ≤ index.toInt ∧ index.toInt < items.length

theorem card_addressed (indexes : List Int64) (items : List Bytes) :
    (addressed indexes items).card = (keep (fun i _ => isListed indexes i) items).length := by
  rw [← length_addressed]
  generalize hfound : (IndexSet.normalize indexes).filter _ = found
  rw [← List.toFinset_card_of_nodup (IndexSet.nodup_normalize found)]
  congr 1
  ext index
  rw [addressed, Finset.mem_filter, List.mem_toFinset, List.mem_toFinset, IndexSet.mem_normalize_iff, ← hfound,
    List.mem_filter, IndexSet.mem_normalize_iff, Bool.and_eq_true, decide_eq_true_iff, decide_eq_true_iff]

/-- The list shrinks by as many elements as are addressed. -/
theorem length_unlisted_add (indexes : List Int64) (items : List Bytes) :
    (keep (fun i _ => !isListed indexes i) items).length + (addressed indexes items).card = items.length := by
  rw [card_addressed, Nat.add_comm]
  exact length_keep_add (isListed indexes) items

end ListOp

namespace Request

variable {committed : Index} {bucket : String} {key : Bytes} {items : List Bytes} {tx : Tx} {env : Env}
  {indexes others : List Int64}

theorem length_indexes_lt (hwords : indexes.length < 2 ^ 64) (key : Bytes) :
    (Command.removeAt key (IndexSet.normalize indexes)).indexes.length < 2 ^ 64 :=
  Nat.lt_of_le_of_lt (IndexSet.length_normalize_le indexes) hwords

theorem makes_removeAt (hwords : indexes.length < 2 ^ 64) (bucket : String) (key : Bytes) (items : List Bytes)
    (second : UInt64) :
    (Record.ofCommand bucket (.removeAt key (IndexSet.normalize indexes)) second).Makes bucket key items
      (ListOp.keep (fun i _ => !ListOp.isListed indexes i) items) (ListOp.addressed indexes items).card := by
  have hcount := Nat.sub_eq_of_eq_add' (ListOp.length_unlisted_add indexes items).symm
  refine Record.makes_ofCommand (length_indexes_lt hwords key) fun store hlist => ?_
  rw [Store.apply_removeAt hlist, hcount]

theorem run_removeAt_congr (h : ∀ i, i ∈ others ↔ i ∈ indexes) (committed : Index) (bucket : String) (key : Bytes) :
    (Request.removeAt key others).perform committed bucket = (Request.removeAt key indexes).perform committed bucket := by
  rw [perform, perform, Tx.removeAt, Tx.removeAt, IndexSet.normalize_congr h]

/-- A removal by positions answers how many distinct ones address an element. If there are none, nothing is staged. Else
one record is staged, which lists the positions in order and once each. The list loses the elements at them and no
others, here and wherever the record is replayed on an equal list. Nothing of this depends on the order of the positions
and on how often they are listed. -/
theorem removeAt_exact (h : tx.SeesLive committed bucket key items env.second) (hwords : indexes.length < 2 ^ 64) :
    (∃ w, ((Request.removeAt key indexes).perform committed bucket).run ⟨tx, env⟩ =
        (.ok (.count (ListOp.addressed indexes items).card), w) ∧
      ((ListOp.addressed indexes items).card = 0 → w.tx = tx) ∧
      ((ListOp.addressed indexes items).card ≠ 0 → ∃ (r : Record) (sorted : List Int64) (kept : List Bytes),
        w.tx.pending = tx.pending ++ [r] ∧ r.command = .ok (.removeAt key sorted) ∧
        sorted.Pairwise (· < ·) ∧ (∀ i, i ∈ sorted ↔ i ∈ indexes) ∧
        kept = ListOp.keep (fun i _ => !ListOp.isListed indexes i) items ∧
        kept.length + (ListOp.addressed indexes items).card = items.length ∧
        w.tx.SeesLive committed bucket key kept env.second ∧
        r.Makes bucket key items kept (ListOp.addressed indexes items).card)) ∧
    ∀ others : List Int64, (∀ i, i ∈ others ↔ i ∈ indexes) →
      ((Request.removeAt key others).perform committed bucket).run ⟨tx, env⟩ =
        ((Request.removeAt key indexes).perform committed bucket).run ⟨tx, env⟩ := by
  refine ⟨?_, fun others hothers => by rw [run_removeAt_congr hothers]⟩
  rw [ListOp.card_addressed]
  by_cases hnone : (ListOp.keep (fun i _ => ListOp.isListed indexes i) items).length = 0
  · have hperform : ((Request.removeAt key indexes).perform committed bucket).run ⟨tx, env⟩ =
        (.ok (.count 0), ⟨tx, ((Env.emit (.nothingAddressed bucket)).run env.tick).2⟩) := by
      rw [perform, Attempt.run_bind_ok (h.run_removeAt_none hnone)]
      rfl
    rw [hnone]
    exact ⟨_, hperform, fun _ => rfl, fun hsome => absurd rfl hsome⟩
  · obtain ⟨w, hrun, hputs⟩ := h.run_removeAt_some hnone
    refine ⟨w, ?_, fun hcontra => absurd hcontra hnone, fun _ => ?_⟩
    · rw [perform, Attempt.run_bind_ok hrun]
      rfl
    · have hshrinks := ListOp.length_unlisted_add indexes items
      have hmakes := makes_removeAt hwords bucket key items env.tick.second
      rw [ListOp.card_addressed] at hshrinks hmakes
      exact ⟨_, IndexSet.normalize indexes, _, hputs.pending, Command.decode_encode (length_indexes_lt hwords key),
        IndexSet.pairwise_normalize indexes, fun _ => IndexSet.mem_normalize_iff, rfl, hshrinks, hputs.seesLive h,
        hmakes⟩

/-- Positions before the head and far beyond the tail stay in the record and take nothing out. -/
theorem removeAt_once :
    (Tx.begin true).SeesLive (Tx.listIndex [[97], [98], [99]]) "b" [107] [[97], [98], [99]] 100 ∧
      ([1, -5, 4611686018427387904, 1] : List Int64).length < 2 ^ 64 ∧
      ∃ (w : Tx.Work) (r : Record),
        ((Request.removeAt [107] [1, -5, 4611686018427387904, 1]).perform (Tx.listIndex [[97], [98], [99]]) "b").run
          ⟨Tx.begin true, ⟨.still 100 0, []⟩⟩ = (.ok (.count 1), w) ∧
        w.tx.pending = [r] ∧ r.Makes "b" [107] [[97], [98], [99]] [[97], [99]] 1 := by
  have hlive : (Tx.begin true).SeesLive (Tx.listIndex [[97], [98], [99]]) "b" [107] [[97], [98], [99]]
      (Env.second ⟨.still 100 0, []⟩) := Tx.seesLive_listIndex [[97], [98], [99]] 100
  have hwords : ([1, -5, 4611686018427387904, 1] : List Int64).length < 2 ^ 64 := by decide
  have hcard : (ListOp.addressed [1, -5, 4611686018427387904, 1] [[97], [98], [99]]).card = 1 := by decide
  have hkept : ListOp.keep (fun i _ => !ListOp.isListed [1, -5, 4611686018427387904, 1] i) [[97], [98], [99]] =
      [[97], [99]] := by decide
  obtain ⟨⟨w, hrun, -, hsome⟩, -⟩ := removeAt_exact hlive hwords
  rw [hcard] at hrun hsome
  obtain ⟨r, sorted, kept, hpending, -, -, -, rfl, -, -, hmakes⟩ := hsome (by decide)
  rw [hkept] at hmakes
  exact ⟨hlive, hwords, w, r, hrun, hpending, hmakes⟩

end Request

end DurableLists

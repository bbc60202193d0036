import Mathlib.Data.List.Induction
import DurableLists.Proofs.Log.Scan

/-!
# Batches in a log

A batch is one transaction from its first record to the one that closes it, as sealing makes it. Read
after a log in which nothing waits under its id, it is released whole and as it is, whatever waits under
other ids stays, and the log then ends at a closing record (`transactions_append_isBatch`,
`waiting_append_isBatch`, `settled_append_isBatch`). Records that close nothing release nothing.
-/

set_option autoImplicit false

namespace DurableLists

namespace Record

/-- Whether records are one transaction from its first record to the one that closes it. -/
def IsBatch (txId : UInt64) (batch : List Record) : Prop :=
  ∃ opens close, batch = opens ++ [close] ∧ (∀ r ∈ opens, r.txId = txId ∧ r.isCommitted = false) ∧
    close.txId = txId ∧ close.isCommitted = true

theorem isBatch_sealBatch (txId : UInt64) (rs : List Record) (h : rs ≠ []) :
    IsBatch txId (sealBatch txId rs) := by
  fun_induction sealBatch txId rs with
  | case1 => exact absurd rfl h
  | case2 r => exact ⟨[], _, rfl, by simp, rfl, rfl⟩
  | case3 r rs hrs ih =>
    obtain ⟨opens, close, hbatch, hopens, hclose⟩ := ih (by simpa using hrs)
    refine ⟨{ r with txId, status := .uncommitted } :: opens, close, by rw [hbatch]; rfl, ?_, hclose⟩
    intro t ht
    rcases List.mem_cons.mp ht with rfl | ht
    · exact ⟨rfl, rfl⟩
    · exact hopens t ht

theorem IsBatch.open_of_take {txId : UInt64} {batch : List Record} (h : IsBatch txId batch) {n : Nat}
    (hn : n < batch.length) : ∀ r ∈ batch.take n, r.isCommitted = false := by
  obtain ⟨opens, close, rfl, hopens, -⟩ := h
  intro r hr
  rw [List.length_append, List.length_singleton] at hn
  rw [List.take_append_of_le_length (by omega)] at hr
  exact (hopens r (List.mem_of_mem_take hr)).2

end Record

namespace Scan

/-! ## Lengths -/

theorem consumed_steps (rs : List Record) (scan : Scan) (hfits : ∀ r ∈ rs, Frame.Fits r) :
    (scan.steps rs).consumed = scan.consumed + (Frame.encodeAll rs).length := by
  induction rs generalizing scan with
  | nil => rfl
  | cons r rs ih =>
    rw [steps_cons, ih _ fun t ht => hfits t (by simp [ht]),
      consumed_step scan (hfits r (by simp)), Frame.encodeAll_cons, List.length_append, Nat.add_assoc]

/-! ## Records left open -/

theorem steps_open (rs : List Record) (scan : Scan) (h : ∀ r ∈ rs, r.isCommitted = false) :
    (scan.steps rs).released = scan.released ∧
      (scan.steps rs).committedLength = scan.committedLength := by
  induction rs generalizing scan with
  | nil => exact ⟨rfl, rfl⟩
  | cons r rs ih =>
    have hr := h r (by simp)
    have hrest := ih (scan.step r) fun t ht => h t (by simp [ht])
    rw [step_open scan hr] at hrest
    rw [steps_cons, step_open scan hr]
    exact hrest

theorem waitingOf_steps_open (txId : UInt64) (rs : List Record) (scan : Scan)
    (h : ∀ r ∈ rs, r.txId = txId ∧ r.isCommitted = false) :
    (scan.steps rs).waitingOf txId = rs.reverse ++ scan.waitingOf txId := by
  induction rs generalizing scan with
  | nil => rfl
  | cons r rs ih =>
    obtain ⟨hid, hr⟩ := h r (by simp)
    rw [steps_cons, ih _ fun t ht => h t (by simp [ht]), waitingOf_step, if_pos hid, hr]
    simp

theorem getElem?_waiting_steps_open (txId : UInt64) (rs : List Record) (scan : Scan)
    (h : ∀ r ∈ rs, r.txId = txId ∧ r.isCommitted = false) (other : UInt64) (hother : other ≠ txId) :
    (scan.steps rs).waiting[other]? = scan.waiting[other]? := by
  induction rs generalizing scan with
  | nil => rfl
  | cons r rs ih =>
    obtain ⟨hid, hr⟩ := h r (by simp)
    rw [steps_cons, ih _ fun t ht => h t (by simp [ht]), getElem?_waiting_step, hid,
      if_neg hother.symm]

/-! ## Batches -/

/-- A batch under an id that nothing waits under is released whole, and what waits stays. -/
theorem steps_isBatch {txId : UInt64} {batch : List Record} (h : Record.IsBatch txId batch) (scan : Scan)
    (hfresh : scan.waiting[txId]? = none) :
    (scan.steps batch).released = (txId, batch) :: scan.released ∧
      (scan.steps batch).waiting = scan.waiting := by
  obtain ⟨opens, close, rfl, hopens, hid, hclose⟩ := h
  have hstep : scan.steps (opens ++ [close]) = (scan.steps opens).step close := steps_append scan opens [close]
  have hwaiting := waitingOf_steps_open txId opens scan hopens
  have hnone : scan.waitingOf txId = [] := by rw [waitingOf, hfresh, Option.getD_none]
  rw [hnone, List.append_nil] at hwaiting
  rw [hstep, step_close _ hclose, hid, hwaiting]
  refine ⟨?_, ?_⟩
  · rw [(steps_open opens scan fun r hr => (hopens r hr).2).1]
    simp
  · apply Std.ExtTreeMap.ext_getElem?
    intro other
    by_cases hother : other = txId
    · subst hother
      rw [Std.ExtTreeMap.getElem?_erase_self, hfresh]
    · rw [Std.ExtTreeMap.getElem?_erase, if_neg (by simpa using fun e => hother e.symm)]
      exact getElem?_waiting_steps_open txId opens scan hopens other hother

theorem committedLength_steps_isBatch {txId : UInt64} {batch : List Record}
    (h : Record.IsBatch txId batch) (scan : Scan) :
    (scan.steps batch).committedLength = (scan.steps batch).consumed := by
  obtain ⟨opens, close, rfl, -, -, hclose⟩ := h
  have hstep : scan.steps (opens ++ [close]) = (scan.steps opens).step close := steps_append scan opens [close]
  rw [hstep, step_close _ hclose]

/-! ## Transaction ids -/

theorem toNat_lastTxId_step (scan : Scan) (r : Record) :
    (scan.step r).lastTxId.toNat = max scan.lastTxId.toNat r.txId.toNat := by
  have e : max scan.lastTxId r.txId = if scan.lastTxId ≤ r.txId then r.txId else scan.lastTxId := rfl
  rw [lastTxId_step, e]
  split <;> rename_i h <;> rw [UInt64.le_iff_toNat_le] at h <;> omega

theorem le_lastTxId_steps (rs : List Record) (scan : Scan) :
    scan.lastTxId.toNat ≤ (scan.steps rs).lastTxId.toNat := by
  induction rs generalizing scan with
  | nil => exact Nat.le_refl _
  | cons r rs ih =>
    have hstep := toNat_lastTxId_step scan r
    have hrest := ih (scan.step r)
    rw [steps_cons]
    omega

theorem lastTxId_steps_lt (rs : List Record) (scan : Scan) (bound : Nat)
    (hstart : scan.lastTxId.toNat < bound) (h : ∀ r ∈ rs, r.txId.toNat < bound) :
    (scan.steps rs).lastTxId.toNat < bound := by
  induction rs generalizing scan with
  | nil => exact hstart
  | cons r rs ih =>
    have hstep := toNat_lastTxId_step scan r
    have hr := h r (by simp)
    rw [steps_cons]
    exact ih (scan.step r) (by omega) fun t ht => h t (by simp [ht])

theorem le_lastTxId_of_mem {rs : List Record} {r : Record} (h : r ∈ rs) :
    r.txId.toNat ≤ (after rs).lastTxId.toNat := by
  obtain ⟨before, later, rfl⟩ := List.append_of_mem h
  have hstep := toNat_lastTxId_step (after before) r
  have hrest := le_lastTxId_steps later ((after before).step r)
  rw [after_append, steps_cons]
  omega

/-- What waits, waits under an id that has been seen. -/
def WaitsBelow (scan : Scan) : Prop :=
  ∀ txId : UInt64, scan.waiting[txId]? ≠ none → txId.toNat ≤ scan.lastTxId.toNat

theorem waitsBelow_step {scan : Scan} (h : scan.WaitsBelow) (r : Record) : (scan.step r).WaitsBelow := by
  intro txId hwaits
  have hstep := toNat_lastTxId_step scan r
  by_cases hid : txId = r.txId
  · rw [hid]
    omega
  · have hbefore : scan.waiting[txId]? ≠ none := by
      intro hnone
      refine hwaits ?_
      rw [getElem?_waiting_step, if_neg (Ne.symm hid), hnone]
    have hseen := h txId hbefore
    omega

theorem waitsBelow_after (rs : List Record) : (after rs).WaitsBelow := by
  induction rs using List.reverseRecOn with
  | nil =>
    intro txId h
    exact absurd Std.ExtTreeMap.getElem?_empty h
  | append_singleton rs r ih =>
    rw [after_concat]
    exact waitsBelow_step ih r

/-- Under an id that no record has nothing waits. -/
theorem getElem?_waiting_after {txId : UInt64} {rs : List Record} (h : ∀ r ∈ rs, r.txId ≠ txId) :
    (after rs).waiting[txId]? = none := by
  induction rs using List.reverseRecOn with
  | nil => exact Std.ExtTreeMap.getElem?_empty
  | append_singleton rs r ih =>
    rw [after_concat, getElem?_waiting_step, if_neg (h r (by simp))]
    exact ih fun t ht => h t (List.mem_append_left _ ht)

/-! ## Logs that end at a closing record -/

/-- Whether the last record of a log, if there is one, closes a transaction: all octets are committed. -/
def Settled (rs : List Record) : Prop := (after rs).committedLength = (Frame.encodeAll rs).length

theorem consumed_after (rs : List Record) (hfits : ∀ r ∈ rs, Frame.Fits r) :
    (after rs).consumed = (Frame.encodeAll rs).length := by
  rw [after, consumed_steps rs start hfits]
  exact Nat.zero_add _

theorem settled_append_isBatch {txId : UInt64} {rs batch : List Record} (h : Record.IsBatch txId batch)
    (hfits : ∀ r ∈ rs ++ batch, Frame.Fits r) : Settled (rs ++ batch) := by
  rw [Settled, ← consumed_after _ hfits, after_append]
  exact committedLength_steps_isBatch h (after rs)

/-- Records are those up to the last closing one, and open ones. -/
theorem exists_settled_append (rs : List Record) (hfits : ∀ r ∈ rs, Frame.Fits r) :
    ∃ kept dropped, rs = kept ++ dropped ∧ Settled kept ∧ ∀ r ∈ dropped, r.isCommitted = false := by
  induction rs using List.reverseRecOn with
  | nil => exact ⟨[], [], rfl, rfl, by simp⟩
  | append_singleton rs r ih =>
    cases h : r.isCommitted with
    | true =>
      refine ⟨rs ++ [r], [], by simp, ?_, by simp⟩
      rw [Settled, ← consumed_after _ hfits, after_concat, step_close _ h]
    | false =>
      obtain ⟨kept, dropped, hrs, hkept, hdropped⟩ := ih fun t ht => hfits t (by simp [ht])
      refine ⟨kept, dropped ++ [r], by rw [hrs, List.append_assoc], hkept, ?_⟩
      intro t ht
      rcases List.mem_append.mp ht with ht | ht
      · exact hdropped t ht
      · rw [List.mem_singleton.mp ht]
        exact h

/-! ## Transactions -/

/-- The transactions that records close, in the order of closing. -/
def transactions (rs : List Record) : List (List Record) := (after rs).log.transactions

theorem transactions_nil : transactions [] = [] := rfl

theorem transactions_append_open (rs ts : List Record) (h : ∀ r ∈ ts, r.isCommitted = false) :
    transactions (rs ++ ts) = transactions rs := by
  rw [transactions, transactions, log, log, after_append, (steps_open ts _ h).1]

theorem committedLength_append_open (rs ts : List Record) (h : ∀ r ∈ ts, r.isCommitted = false) :
    (after (rs ++ ts)).committedLength = (after rs).committedLength := by
  rw [after_append, (steps_open ts _ h).2]

theorem transactions_append_isBatch {txId : UInt64} {rs batch : List Record}
    (h : Record.IsBatch txId batch) (hfresh : (after rs).waiting[txId]? = none) :
    transactions (rs ++ batch) = transactions rs ++ [batch] := by
  rw [transactions, transactions, log, log, after_append, (steps_isBatch h _ hfresh).1]
  simp

theorem waiting_append_isBatch {txId : UInt64} {rs batch : List Record}
    (h : Record.IsBatch txId batch) (hfresh : (after rs).waiting[txId]? = none) :
    (after (rs ++ batch)).waiting = (after rs).waiting := by
  rw [after_append, (steps_isBatch h _ hfresh).2]

end Scan

end DurableLists

import Mathlib.Data.List.DropRight
import DurableLists.Proofs.PlainList

/-!
# Removal from either end

The positions of a value in a list are in order (`ListOp.positions`). A count tells which of them a removal by value
takes the value out of: the first ones, the last ones or all (`ListOp.doomed`). A scan from the head that stops at a
limit leaves the list without the first ones (`ListOp.removeFirst_eq_without`), and a scan of the list reversed leaves
it without the last ones (`ListOp.removeFirst_reverse_eq_without`). `Store.remove_directional` says so of the store.
-/

set_option autoImplicit false

namespace DurableLists

namespace ListOp

/-! ## Positions of a value -/

/-- The positions of a value in a list, from the head to the tail. -/
def positions (value : Bytes) (items : List Bytes) : List Nat :=
  (List.range items.length).filter fun i => items[i]? = some value

/-- The positions that a count tells to remove a value from: the first ones from the head for a positive count, the
last ones for a negative count, and all for zero. -/
def doomed (count : Int64) (value : Bytes) (items : List Bytes) : List Nat :=
  if count = 0 then positions value items
  else if 0 < count then (positions value items).take count.toInt.natAbs
  else (positions value items).rtake count.toInt.natAbs

/-- The elements at all but some positions. -/
def without (gone : List Nat) (items : List Bytes) : List Bytes := keep (fun i _ => decide (i ∉ gone)) items

variable {value item : Bytes} {items : List Bytes}

theorem mem_positions_iff {i : Nat} : i ∈ positions value items ↔ items[i]? = some value := by
  rw [positions, List.mem_filter, List.mem_range, decide_eq_true_iff]
  refine ⟨And.right, fun h => ⟨?_, h⟩⟩
  exact (List.getElem?_eq_some_iff.mp h).1

theorem positions_sublist (value : Bytes) (items : List Bytes) :
    (positions value items).Sublist (List.range items.length) := List.filter_sublist

theorem positions_cons (value item : Bytes) (items : List Bytes) : positions value (item :: items) =
    (if item = value then [0] else []) ++ (positions value items).map (· + 1) := by
  rw [positions, List.length_cons, List.range_succ_eq_map, List.filter_cons, List.filter_map, positions]
  by_cases hvalue : item = value
  · simp [hvalue, Function.comp_def]
  · simp [hvalue, Function.comp_def]

theorem positions_concat (value : Bytes) (items : List Bytes) (item : Bytes) : positions value (items ++ [item]) =
    positions value items ++ if item = value then [items.length] else [] := by
  have hfront : (List.range items.length).filter (fun i => (items ++ [item])[i]? = some value) =
      positions value items := by
    refine List.filter_congr fun i hi => ?_
    rw [List.getElem?_append_left (List.mem_range.mp hi)]
  rw [positions, List.length_append, List.length_singleton, List.range_succ, List.filter_append, hfront]
  by_cases hvalue : item = value
  · simp [hvalue]
  · simp [hvalue]

theorem length_positions (value : Bytes) (items : List Bytes) :
    (positions value items).length = items.count value := by
  induction items with
  | nil => rfl
  | cons item items ih =>
    rw [positions_cons, List.length_append, List.length_map, ih, List.count_cons]
    by_cases hvalue : item = value
    · simp [hvalue, Nat.add_comm]
    · simp [hvalue]

/-! ## Elements at the other positions -/

theorem keep_concat (p : Nat → Bytes → Bool) (items : List Bytes) (item : Bytes) :
    keep p (items ++ [item]) = keep p items ++ if p items.length item then [item] else [] := by
  rw [keep, List.zipIdx_append, List.filter_append, List.map_append, keep]
  cases hlast : p items.length item <;> simp [hlast]

theorem without_nil (items : List Bytes) : without [] items = items := by
  rw [without]
  exact (keep_congr fun _ _ _ => by simp).trans (keep_true items)

theorem without_cons_zero (gone : List Nat) (item : Bytes) (items : List Bytes) :
    without (0 :: gone.map (· + 1)) (item :: items) = without gone items := by
  rw [without, keep_cons]
  simp [without]

theorem without_cons (gone : List Nat) (item : Bytes) (items : List Bytes) :
    without (gone.map (· + 1)) (item :: items) = item :: without gone items := by
  rw [without, keep_cons]
  simp [without]

theorem without_concat {gone : List Nat} (h : items.length ∉ gone) (item : Bytes) :
    without gone (items ++ [item]) = without gone items ++ [item] := by
  rw [without, keep_concat, if_pos (decide_eq_true h), without]

theorem without_concat_last (gone : List Nat) (items : List Bytes) (item : Bytes) :
    without (gone ++ [items.length]) (items ++ [item]) = without gone items := by
  have hlast : decide (items.length ∉ gone ++ [items.length]) = false := by simp
  rw [without, keep_concat, hlast, if_neg Bool.false_ne_true, List.append_nil]
  refine keep_congr fun i _ hi => ?_
  have hne : i ≠ items.length := Nat.ne_of_lt hi
  simp [hne]

/-- As many elements are gone as there are positions to be gone from. -/
theorem length_without {gone : List Nat} (h : gone.Sublist (List.range items.length)) :
    gone.length + (without gone items).length = items.length := by
  -- The positions that are gone are those of the list that are gone.
  have hmem (i : Nat) : i ∈ gone ↔ i ∈ (List.range items.length).filter fun i => decide (i ∈ gone) := by
    rw [List.mem_filter, decide_eq_true_iff]
    exact ⟨fun hi => ⟨h.subset hi, hi⟩, And.right⟩
  have hperm := (List.perm_ext_iff_of_nodup (h.nodup List.nodup_range) (List.nodup_range.filter _)).mpr hmem
  have hsplit := length_keep_add (fun i => decide (i ∈ gone)) items
  rw [length_keep, ← hperm.length_eq] at hsplit
  simpa only [without, decide_not] using hsplit

/-! ## Both directions -/

theorem filter_ne_eq_without (value : Bytes) (items : List Bytes) :
    items.filter (· ≠ value) = without (positions value items) items := by
  induction items with
  | nil => rfl
  | cons item items ih =>
    rw [positions_cons]
    by_cases hvalue : item = value
    · rw [if_pos hvalue, List.singleton_append, without_cons_zero, ← ih]
      simp [hvalue]
    · rw [if_neg hvalue, List.nil_append, without_cons, ← ih]
      simp [hvalue]

/-- From the head, the first positions of the value are those that go. -/
theorem removeFirst_eq_without (value : Bytes) (limit : Nat) (items : List Bytes) :
    Store.removeFirst value limit items = without ((positions value items).take limit) items := by
  induction items generalizing limit with
  | nil => cases limit <;> rfl
  | cons item items ih =>
    cases limit with
    | zero => rw [List.take_zero, without_nil, Store.removeFirst]
    | succ limit =>
      rw [positions_cons, Store.removeFirst]
      by_cases hvalue : item = value
      · rw [if_pos hvalue, if_pos hvalue, List.singleton_append, List.take_succ_cons, ← List.map_take,
          without_cons_zero, ih]
      · rw [if_neg hvalue, if_neg hvalue, List.nil_append, ← List.map_take, without_cons, ih]

/-- From the tail, the last ones are. -/
theorem removeFirst_reverse_eq_without (value : Bytes) (limit : Nat) (items : List Bytes) :
    (Store.removeFirst value limit items.reverse).reverse =
      without ((positions value items).rtake limit) items := by
  -- The scan of the reversed list meets the last element first, so the list is taken apart from its tail.
  induction items using List.reverseRecOn generalizing limit with
  | nil => cases limit <;> rfl
  | append_singleton items item ih =>
    cases limit with
    | zero => rw [List.rtake_zero, without_nil, Store.removeFirst, List.reverse_reverse]
    | succ limit =>
      rw [List.reverse_append, List.reverse_singleton, List.singleton_append, Store.removeFirst, positions_concat]
      by_cases hvalue : item = value
      · rw [if_pos hvalue, if_pos hvalue, List.rtake_concat_succ, without_concat_last, ih]
      · have hinside : items.length ∉ (positions value items).rtake (limit + 1) := by
          intro hmem
          have hposition := mem_positions_iff.mp (List.mem_of_mem_drop hmem)
          rw [List.getElem?_eq_none (Nat.le_refl _)] at hposition
          cases hposition
        rw [if_neg hvalue, if_neg hvalue, List.append_nil, List.reverse_cons, without_concat hinside, ih]

theorem doomed_sublist (count : Int64) (value : Bytes) (items : List Bytes) :
    (doomed count value items).Sublist (List.range items.length) := by
  refine List.Sublist.trans ?_ (positions_sublist value items)
  rw [doomed]
  split
  · exact List.Sublist.refl _
  · split
    · exact List.take_sublist ..
    · exact List.drop_sublist ..

theorem length_doomed (count : Int64) (value : Bytes) (items : List Bytes) : (doomed count value items).length =
    if count = 0 then items.count value else min (items.count value) count.toInt.natAbs := by
  rw [doomed, ← length_positions]
  split
  · rfl
  · split
    · rw [List.length_take, Nat.min_comm]
    · rw [List.rtake, List.length_drop]
      omega

theorem removeCounted_eq_without (count : Int64) (value : Bytes) (items : List Bytes) :
    Store.removeCounted count value items = without (doomed count value items) items := by
  rw [Store.removeCounted, doomed]
  split
  · exact filter_ne_eq_without value items
  · split
    · exact removeFirst_eq_without value _ items
    · exact removeFirst_reverse_eq_without value _ items

theorem toInt_pos {count : Int64} (h : 0 < count) : 0 < count.toInt := by
  rw [← Int64.toInt_zero]
  exact Int64.lt_iff_toInt_lt.mp h

theorem toInt_neg_of_pos {count : Int64} (h : 0 < count) : (-count).toInt = -count.toInt := by
  have hpositive := toInt_pos h
  have hhigh : count.toInt < 2 ^ 63 := Int64.toInt_lt count
  rw [Int64.toInt_neg]
  exact Int.bmod_eq_of_le (by omega) (by omega)

/-- Removal from the tail is removal from the head of the list reversed. -/
theorem removeCounted_neg {count : Int64} (h : 0 < count) (value : Bytes) (items : List Bytes) :
    Store.removeCounted (-count) value items = (Store.removeCounted count value items.reverse).reverse := by
  have hpositive := toInt_pos h
  have hneg := toInt_neg_of_pos h
  have hnonzero : count ≠ 0 := (Int64.ne_of_lt h).symm
  have hneg_nonzero : -count ≠ 0 := Int64.neg_ne_zero.mpr hnonzero
  have hneg_nonpos : ¬0 < -count := by
    rw [Int64.lt_iff_toInt_lt, hneg, Int64.toInt_zero]
    omega
  rw [Store.removeCounted, Store.removeCounted, if_neg hneg_nonzero, if_neg hneg_nonpos, if_neg hnonzero, if_pos h,
    hneg, Int.natAbs_neg]

end ListOp

namespace Store

variable {s : Store} {key : Bytes} {items : List Bytes}

theorem removable_eq_length_doomed (h : s.list? key = some items) (count : Int64) (value : Bytes) :
    s.removable key count value = .ok (ListOp.doomed count value items).length := by
  rw [removable, list, h, ListOp.length_doomed]
  rfl

theorem run_remove_of_list? (h : s.list? key = some items) (count : Int64) (value : Bytes) :
    (remove key count value).run s = (.ok (ListOp.doomed count value items).length,
      s.putList key (ListOp.without (ListOp.doomed count value items) items)) := by
  have hlength := ListOp.length_without (ListOp.doomed_sublist count value items)
  rw [run_remove, h]
  simp only [ListOp.removeCounted_eq_without]
  rw [Nat.sub_eq_of_eq_add hlength.symm]

/-- A removal by value takes the value out of the positions that its count tells, answers how many they are, which is
what was foretold of the list before it, and changes no other list and no expiry. A removal from the tail is one from
the head of the list reversed. -/
theorem remove_directional (h : s.list? key = some items) (value : Bytes) :
    (∀ count : Int64,
      (ListOp.doomed count value items).length =
        (if count = 0 then items.count value else min (items.count value) count.toInt.natAbs) ∧
      s.removable key count value = .ok (ListOp.doomed count value items).length ∧
      ∃ t, (remove key count value).run s = (.ok (ListOp.doomed count value items).length, t) ∧
        t.list? key = some (ListOp.without (ListOp.doomed count value items) items) ∧
        (∀ other, other ≠ key → t.list? other = s.list? other) ∧ ∀ other, t.expiry? other = s.expiry? other) ∧
    ∀ count : Int64, 0 < count → ∃ removed kept t t',
      (remove key count value).run (s.putList key items.reverse) = (.ok removed, t) ∧
      t.list? key = some kept ∧
      (remove key (-count) value).run s = (.ok removed, t') ∧ t'.list? key = some kept.reverse := by
  refine ⟨fun count => ⟨ListOp.length_doomed count value items, removable_eq_length_doomed h count value, _,
    run_remove_of_list? h count value, ?_, fun other hother => ?_, fun other => ?_⟩, fun count hcount => ?_⟩
  · rw [list?_putList, if_pos rfl]
  · rw [list?_putList, if_neg hother.symm]
  · exact expiry?_putList ..
  · have hreversed : (s.putList key items.reverse).list? key = some items.reverse := by
      rw [list?_putList, if_pos rfl]
    have hhead := run_remove (s.putList key items.reverse) key count value
    have htail := run_remove s key (-count) value
    rw [hreversed] at hhead
    rw [h] at htail
    simp only [List.length_reverse] at hhead
    simp only [ListOp.removeCounted_neg hcount, List.length_reverse] at htail
    refine ⟨_, removeCounted count value items.reverse, _, _, hhead, ?_, htail, ?_⟩
    · rw [list?_putList, if_pos rfl]
    · rw [list?_putList, if_pos rfl]

/-- Of three occurrences of a value, two are removed from the tail: what is between them stays. -/
theorem remove_two_from_tail :
    ((∅ : Store).putList [107] [[97], [98], [97], [98], [97]]).list? [107] =
        some [[97], [98], [97], [98], [97]] ∧
      ∃ t, (remove [107] (-2) [97]).run ((∅ : Store).putList [107] [[97], [98], [97], [98], [97]]) = (.ok 2, t) ∧
        t.list? [107] = some [[97], [98], [98]] := by
  have hlist : ((∅ : Store).putList [107] [[97], [98], [97], [98], [97]]).list? [107] =
      some [[97], [98], [97], [98], [97]] := by
    rw [list?_putList, if_pos rfl]
  obtain ⟨-, -, t, hrun, hkept, -⟩ := (remove_directional hlist [97]).1 (-2)
  exact ⟨hlist, t, hrun, hkept⟩

end Store

end DurableLists

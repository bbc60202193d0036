import Mathlib.Data.List.Nodup
import Mathlib.Data.List.Perm.Basic
import DurableLists.Tx.Request
import DurableLists.Proofs.Command.Justified
import DurableLists.Proofs.Span

/-!
# Plain lists

The operations on one list, and what each of them is on a list that is nothing but its elements: `ListOp.onPlain`
answers and changes the list by its positions alone. A store computes the same: its ranges are the elements between two
bounds (`Store.range_eq_between`), its removals by value leave out the first matches
(`ListOp.removeCounted_eq_removed`), and its removals by position leave out the positions that are listed, each
counted once (`ListOp.removePositions_normalize`, `Store.removableAt_normalize`). What a command makes of a list when it
is applied is read off from there (`Store.apply_trim` and the lemmas beside it).
-/

set_option autoImplicit false

namespace DurableLists

/-- An operation on one list. -/
inductive ListOp where
  | push (side : Side) (values : List Bytes)
  | pop (side : Side)
  | peek (side : Side)
  | length
  | range (start stop : Int64)
  | remove (count : Int64) (value : Bytes)
  | replace (index : Int64) (value : Bytes)
  | trim (start stop : Int64)
  | removeAt (indexes : List Int64)

namespace ListOp

/-- The request that makes an operation on the list under a key. -/
def request (key : Bytes) : ListOp → Request
  | .push side values => .push side key values
  | .pop side => .pop side key
  | .peek side => .peek side key
  | .length => .length key
  | .range start stop => .range key start stop
  | .remove count value => .remove key count value
  | .replace index value => .replace key index value
  | .trim start stop => .trim key start stop
  | .removeAt indexes => .removeAt key indexes

/-! ## Positions -/

/-- The elements that are kept, by their positions and by what they are. -/
def keep (p : Nat → Bytes → Bool) (items : List Bytes) : List Bytes :=
  (items.zipIdx.filter fun x => p x.2 x.1).map fun x => x.1

/-- The position that an offset stands for in a list of a size; a negative one counts from the tail. -/
def bound (offset : Int64) (size : Nat) : Int :=
  if offset.toInt < 0 then size + offset.toInt else offset.toInt

/-- The elements from the position of one offset to that of another, both included. -/
def between (start stop : Int64) (items : List Bytes) : List Bytes :=
  keep (fun i _ => bound start items.length ≤ i && i ≤ bound stop items.length) items

/-- The elements but the first occurrences of a value, as many as the limit says. -/
def withoutFirst (limit : Nat) (value : Bytes) (items : List Bytes) : List Bytes :=
  keep (fun i item => !(item = value && (items.take i).count value < limit)) items

/-- The elements but the occurrences of a value that a count tells to remove: all for zero, the first ones from the
head for a positive count, and the first ones from the tail for a negative one. -/
def removed (count : Int64) (value : Bytes) (items : List Bytes) : List Bytes :=
  if count = 0 then items.filter (· ≠ value)
  else if 0 < count then withoutFirst count.toInt.natAbs value items
  else (withoutFirst count.toInt.natAbs value items.reverse).reverse

def isListed (indexes : List Int64) (i : Nat) : Bool := indexes.any fun index => index.toInt = i

/-! ## Operations -/

/-- What an operation answers on a list of elements, and what it makes of the list. -/
def onPlain : ListOp → List Bytes → Except Error Reply × List Bytes
  | .push .head values, items => (.ok .done, values.reverse ++ items)
  | .push .tail values, items => (.ok .done, items ++ values)
  | .pop side, items =>
    match side.peek? items with
    | none => (.error .emptyList, items)
    | some value => (.ok (.value value), side.rest items)
  | .peek side, items =>
    match side.peek? items with
    | none => (.error .emptyList, items)
    | some value => (.ok (.value value), items)
  | .length, items => (.ok (.count items.length), items)
  | .range start stop, items =>
    if items ≠ [] ∧ between start stop items = [] then (.error .invalidRange, items)
    else (.ok (.values (between start stop items)), items)
  | .remove count value, items =>
    if items.length < count.toInt.natAbs then (.error .countOutOfRange, items)
    else (.ok (.count (items.length - (removed count value items).length)), removed count value items)
  | .replace index value, items =>
    if 0 ≤ index.toInt ∧ index.toInt < items.length then (.ok .done, items.set index.toInt.toNat value)
    else (.error .indexOutOfRange, items)
  | .trim start stop, items =>
    if items ≠ [] ∧ between start stop items = [] then (.error .invalidRange, items)
    else (.ok .done, between start stop items)
  | .removeAt indexes, items =>
    (.ok (.count (keep (fun i _ => isListed indexes i) items).length),
      keep (fun i _ => !isListed indexes i) items)

theorem onPlain_push (side : Side) (values items : List Bytes) : ((push side values).onPlain items).2 =
    values.foldl (fun items value => side.insert value items) items := by
  cases side with
  | head => exact List.foldl_flip_cons_eq_append'.symm
  | tail =>
    induction values generalizing items with
    | nil => exact List.append_nil items
    | cons value values ih =>
      rw [List.foldl_cons, ← ih, onPlain, onPlain, Side.insert, List.append_assoc]
      rfl

/-! ## Elements between two positions -/

theorem keep_congr {p q : Nat → Bytes → Bool} {items : List Bytes}
    (h : ∀ i item, i < items.length → p i item = q i item) : keep p items = keep q items := by
  have hfilter : (items.zipIdx.filter fun x => p x.2 x.1) = items.zipIdx.filter fun x => q x.2 x.1 := by
    refine List.filter_congr fun x hx => h x.2 x.1 ?_
    exact List.snd_lt_of_mem_zipIdx hx
  rw [keep, keep, hfilter]

theorem keep_cons (p : Nat → Bytes → Bool) (item : Bytes) (items : List Bytes) :
    keep p (item :: items) = (if p 0 item then [item] else []) ++ keep (fun i => p (i + 1)) items := by
  have hshift : (items.zipIdx 1).filter (fun x => p x.2 x.1) =
      (items.zipIdx.filter fun x => p (x.2 + 1) x.1).map fun x => (x.1, x.2 + 1) := by
    rw [List.zipIdx_succ, List.filter_map]
    rfl
  rw [keep, List.zipIdx_cons, List.filter_cons, Nat.zero_add, hshift, keep]
  cases p 0 item <;> simp

theorem keep_between (first last : Nat) (items : List Bytes) :
    keep (fun i _ => first ≤ i && i ≤ last) items = (items.take (last + 1)).drop first := by
  induction items generalizing first last with
  | nil => simp [keep]
  | cons item items ih =>
    rw [keep_cons]
    cases first with
    | succ first =>
      have hrest : keep (fun i _ => decide (first + 1 ≤ i + 1) && decide (i + 1 ≤ last)) items =
          (items.take last).drop first := by
        cases last with
        | zero => simp [keep]
        | succ last =>
          rw [← ih]
          exact keep_congr fun i _ _ => by simp
      simpa using hrest
    | zero =>
      have hrest : keep (fun i _ => decide (0 ≤ i + 1) && decide (i + 1 ≤ last)) items = items.take last := by
        cases last with
        | zero => simp [keep]
        | succ last =>
          rw [← List.drop_zero (l := items.take (last + 1)), ← ih]
          exact keep_congr fun i _ _ => by simp
      rw [hrest]
      simp

theorem keep_false (items : List Bytes) : keep (fun _ _ => false) items = [] := by
  rw [keep, List.filter_false, List.map_nil]

theorem isBetween_iff (start stop : Int64) {size i : Nat} (hi : i < size) :
    (decide (bound start size ≤ i) && decide (i ≤ bound stop size)) = true ↔ Span.Selects start stop size i := by
  have hplace (offset : Int64) : Span.place offset size = bound offset size := rfl
  rw [Bool.and_eq_true, decide_eq_true_iff, decide_eq_true_iff, Span.Selects, hplace, hplace]
  exact ⟨fun h => ⟨hi, h⟩, And.right⟩

/-- What two offsets select is what lies between their bounds, and they are refused if that is nothing. -/
theorem slice_eq_between {start stop : Int64} {items : List Bytes} {span : Span}
    (h : Span.resolve start stop items.length = .ok span) : span.slice items = between start stop items := by
  rw [Span.slice, ← keep_between, between]
  refine keep_congr fun i _ hi => ?_
  rw [Bool.eq_iff_iff, isBetween_iff start stop hi, (Span.covers_of_resolve h).selects, Bool.and_eq_true,
    decide_eq_true_iff, decide_eq_true_iff]

theorem between_eq_nil {start stop : Int64} {items : List Bytes} {e : Error}
    (h : Span.resolve start stop items.length = .error e) : e = .invalidRange ∧ between start stop items = [] := by
  obtain ⟨he, hnone⟩ := Span.of_resolve_error h
  refine ⟨he, ?_⟩
  rw [between, ← keep_false items]
  refine keep_congr fun i _ hi => ?_
  exact Bool.eq_false_iff.mpr (mt (isBetween_iff start stop hi).mp (hnone i))

theorem between_eq_nil_iff {start stop : Int64} {items : List Bytes} :
    between start stop items = [] ↔ ∀ i, ¬Span.Selects start stop items.length i := by
  obtain ⟨span, hspan, hcovers⟩ | ⟨herror, hnone⟩ := Span.resolve_cases start stop items.length
  · have hsome := Span.slice_ne_nil_of_resolve hspan
    rw [slice_eq_between hspan] at hsome
    exact iff_of_false hsome fun hnone => hnone _ hcovers.selects_first
  · exact iff_of_true (between_eq_nil herror).2 hnone

theorem keep_true (items : List Bytes) : keep (fun _ _ => true) items = items := by
  rw [keep, List.filter_true, List.zipIdx_map_fst]

/-- From the head to the tail there is the whole list. -/
theorem between_all (items : List Bytes) : between 0 (-1) items = items := by
  have hfirst : bound 0 items.length = 0 := rfl
  have hlast : bound (-1) items.length = items.length - 1 := by
    have hnegative : (-1 : Int64).toInt = -1 := by decide
    rw [bound, hnegative]
    omega
  rw [between, hfirst, hlast]
  refine (keep_congr fun i item hi => ?_).trans (keep_true items)
  rw [Bool.and_eq_true, decide_eq_true_iff, decide_eq_true_iff]
  omega

theorem onPlain_range_all (items : List Bytes) : (range 0 (-1)).onPlain items = (.ok (.values items), items) := by
  have hshown : ¬(items ≠ [] ∧ items = []) := fun h => h.1 h.2
  rw [onPlain, between_all, if_neg hshown]

/-! ## Elements by value -/

theorem removeFirst_eq_withoutFirst (limit : Nat) (value : Bytes) (items : List Bytes) :
    Store.removeFirst value limit items = withoutFirst limit value items := by
  induction items generalizing limit with
  | nil => cases limit <;> rfl
  | cons item items ih =>
    cases limit with
    | zero =>
      have hall : withoutFirst 0 value (item :: items) = item :: items := by
        rw [withoutFirst, ← keep_true (item :: items)]
        refine (keep_congr fun i x _ => ?_).trans (by rw [keep_true])
        simp
      rw [hall]
      rfl
    | succ limit =>
      rw [withoutFirst, keep_cons]
      by_cases hvalue : item = value
      · -- The head is removed, and one occurrence less from the rest.
        have hrest : keep (fun i x => !(x = value && ((item :: items).take (i + 1)).count value < limit + 1))
            items = withoutFirst limit value items := by
          refine keep_congr fun i x _ => ?_
          rw [List.take_succ_cons, hvalue, List.count_cons_self]
          simp
        rw [hrest, Store.removeFirst, if_pos hvalue, ih]
        simp [hvalue]
      · have hrest : keep (fun i x => !(x = value && ((item :: items).take (i + 1)).count value < limit + 1))
            items = withoutFirst (limit + 1) value items := by
          refine keep_congr fun i x _ => ?_
          rw [List.take_succ_cons, List.count_cons_of_ne hvalue]
        rw [hrest, Store.removeFirst, if_neg hvalue, ih]
        simp [hvalue]

theorem removeCounted_eq_removed (count : Int64) (value : Bytes) (items : List Bytes) :
    Store.removeCounted count value items = removed count value items := by
  rw [Store.removeCounted, removed, removeFirst_eq_withoutFirst, removeFirst_eq_withoutFirst]

/-! ## Elements by their positions -/

theorem holds_normalize (indexes : List Int64) (i : Nat) :
    IndexSet.holds (IndexSet.normalize indexes) i = isListed indexes i := by
  rw [Bool.eq_iff_iff, IndexSet.holds, isListed, List.any_eq_true, List.any_eq_true]
  simp only [IndexSet.mem_normalize_iff, beq_iff_eq, decide_eq_true_eq]

theorem removePositions_normalize (indexes : List Int64) (items : List Bytes) :
    Store.removePositions (IndexSet.normalize indexes) items = keep (fun i _ => !isListed indexes i) items := by
  rw [Store.removePositions, keep]
  simp only [holds_normalize]

theorem length_keep (p : Nat → Bool) (items : List Bytes) :
    (keep (fun i _ => p i) items).length = ((List.range items.length).filter p).length := by
  have hpositions : items.zipIdx.map (fun x => x.2) = List.range items.length := by
    rw [List.range_eq_range']
    exact List.zipIdx_map_snd 0 items
  rw [keep, List.length_map, ← hpositions, List.filter_map, List.length_map]
  rfl

theorem length_keep_add (p : Nat → Bool) (items : List Bytes) :
    (keep (fun i _ => p i) items).length + (keep (fun i _ => !p i) items).length = items.length := by
  have hsplit := List.length_eq_length_filter_add (l := List.range items.length) p
  rw [List.length_range] at hsplit
  rw [length_keep, length_keep fun i => !p i]
  exact hsplit.symm

/-- The distinct positions that are listed and address an element are as many as the elements at them. -/
theorem length_addressed (indexes : List Int64) (items : List Bytes) :
    (IndexSet.normalize ((IndexSet.normalize indexes).filter
      fun index => 0 ≤ index.toInt && index.toInt < (items.length : Int))).length =
      (keep (fun i _ => isListed indexes i) items).length := by
  have hdistinct := IndexSet.nodup_normalize ((IndexSet.normalize indexes).filter
    fun index => 0 ≤ index.toInt && index.toInt < (items.length : Int))
  have hmem (index : Int64) : index ∈ IndexSet.normalize ((IndexSet.normalize indexes).filter
      fun index => 0 ≤ index.toInt && index.toInt < (items.length : Int)) ↔
      index ∈ indexes ∧ 0 ≤ index.toInt ∧ index.toInt < items.length := by
    rw [IndexSet.mem_normalize_iff, List.mem_filter, IndexSet.mem_normalize_iff, Bool.and_eq_true,
      decide_eq_true_iff, decide_eq_true_iff]
  revert hdistinct hmem
  generalize IndexSet.normalize _ = addressed
  intro hdistinct hmem
  -- Both sides count the same set of positions.
  have hnodup : (addressed.map fun index => index.toInt.toNat).Nodup := by
    refine List.Nodup.map_on (fun i hi j hj hij => ?_) hdistinct
    obtain ⟨-, hi, -⟩ := (hmem i).mp hi
    obtain ⟨-, hj, -⟩ := (hmem j).mp hj
    exact Int64.toInt_inj.mp (by omega)
  have hsame (i : Nat) : i ∈ (addressed.map fun index => index.toInt.toNat) ↔
      i ∈ (List.range items.length).filter (isListed indexes) := by
    rw [List.mem_map, List.mem_filter, List.mem_range, isListed, List.any_eq_true]
    refine ⟨?_, ?_⟩
    · rintro ⟨index, hindex, rfl⟩
      obtain ⟨hlisted, hlow, hhigh⟩ := (hmem index).mp hindex
      exact ⟨by omega, index, hlisted, decide_eq_true (Int.toNat_of_nonneg hlow).symm⟩
    · rintro ⟨hinside, index, hlisted, hposition⟩
      have hposition : index.toInt = i := of_decide_eq_true hposition
      exact ⟨index, (hmem index).mpr ⟨hlisted, by omega, by omega⟩, by omega⟩
  have hperm := (List.perm_ext_iff_of_nodup hnodup (List.nodup_range.filter _)).mpr hsame
  rw [length_keep, ← hperm.length_eq, List.length_map]

theorem keep_not_of_keep_eq_nil {p : Nat → Bool} {items : List Bytes} (h : keep (fun i _ => p i) items = []) :
    keep (fun i _ => !p i) items = items := by
  rw [keep, List.map_eq_nil_iff, List.filter_eq_nil_iff] at h
  have hall : (items.zipIdx.filter fun x => !p x.2) = items.zipIdx :=
    List.filter_eq_self.mpr fun x hx => by simpa using h x hx
  rw [keep, hall, List.zipIdx_map_fst]

end ListOp

/-! ## Views of a store -/

namespace Store

variable {s : Store} {key : Bytes} {items : List Bytes}

theorem peek_of_list? (h : s.list? key = some items) (side : Side) :
    s.peek side key = match side.peek? items with
      | none => .error .emptyList
      | some value => .ok value := by
  rw [peek, list, h]
  simp only [bind, Except.bind]
  cases side.peek? items <;> rfl

theorem length_of_list? (h : s.list? key = some items) : s.length key = .ok items.length := by
  rw [length, list, h]
  rfl

theorem containsKey_of_list? (h : s.list? key = some items) : s.containsKey key = true := by
  rw [containsKey_eq_isSome, h]
  rfl

theorem range_eq_between (h : s.list? key = some items) (start stop : Int64) :
    s.range key start stop =
      if items ≠ [] ∧ ListOp.between start stop items = [] then .error .invalidRange
      else .ok (ListOp.between start stop items) := by
  rw [range, list, h]
  cases items with
  | nil => rfl
  | cons item items =>
    simp only [bind, Except.bind, List.isEmpty_cons, Bool.false_eq_true, if_false]
    cases hspan : Span.resolve start stop (item :: items).length with
    | error e =>
      obtain ⟨rfl, hnone⟩ := ListOp.between_eq_nil hspan
      rw [if_pos ⟨by simp, hnone⟩]
    | ok span =>
      have hslice := ListOp.slice_eq_between hspan
      have hsome := Span.slice_ne_nil_of_resolve hspan
      rw [hslice] at hsome
      rw [if_neg fun hnone => hsome hnone.2, ← hslice]
      rfl

theorem trimmed_eq_between (start stop : Int64) (items : List Bytes) :
    trimmed start stop items = ListOp.between start stop items := by
  rw [trimmed]
  cases hspan : Span.resolve start stop items.length with
  | error e => exact (ListOp.between_eq_nil hspan).2.symm
  | ok span => exact ListOp.slice_eq_between hspan

theorem removableAt_normalize (h : s.list? key = some items) (indexes : List Int64) :
    s.removableAt key (IndexSet.normalize indexes) =
      .ok (ListOp.keep (fun i _ => ListOp.isListed indexes i) items).length := by
  rw [removableAt, list, h]
  simp only [bind, Except.bind, pure, Except.pure]
  rw [ListOp.length_addressed]

/-! ## What a command makes of a list -/

theorem run_apply_push (s : Store) (side : Side) (key value : Bytes) (second : UInt64) :
    (apply (.push side key value) second).run s =
      (.ok 1, s.putList key (side.insert value ((s.list? key).getD []))) := rfl

theorem apply_push (h : s.list? key = some items) (side : Side) (value : Bytes) (second : UInt64) :
    (apply (.push side key value) second).run s = (.ok 1, s.putList key (side.insert value items)) := by
  rw [run_apply_push, h]
  rfl

theorem apply_pop (h : s.list? key = some items) {side : Side} {found : Bytes}
    (hpeek : side.peek? items = some found) (value : Bytes) (second : UInt64) :
    (apply (.pop side key value) second).run s = (.ok 1, s.putList key (side.rest items)) := by
  have hpop : (pop side key).run s = (.ok found, s.putList key (side.rest items)) := by
    rw [run_pop, h]
    simp only [hpeek]
  rw [apply, Attempt.run_bind_ok hpop]
  rfl

theorem apply_remove (h : s.list? key = some items) (count : Int64) (value : Bytes) (second : UInt64) :
    (apply (.remove key count value) second).run s =
      (.ok (items.length - (ListOp.removed count value items).length),
        s.putList key (ListOp.removed count value items)) := by
  rw [apply, run_remove, h]
  simp only [ListOp.removeCounted_eq_removed]

theorem apply_replace (h : s.list? key = some items) {index : Int64}
    (hindex : 0 ≤ index.toInt ∧ index.toInt < items.length) (value : Bytes) (second : UInt64) :
    (apply (.replace key index value) second).run s =
      (.ok 1, s.putList key (items.set index.toInt.toNat value)) := by
  have hinside : ¬(index < 0 ∨ items.length ≤ index.toInt) := by
    rw [Int64.lt_iff_toInt_lt, Int64.toInt_zero]
    omega
  have hreplace : (replace key index value).run s = (.ok (), s.putList key (items.set index.toInt.toNat value)) := by
    rw [run_replace, h]
    simp only [hinside, if_false]
  rw [apply, Attempt.run_bind_ok hreplace]
  rfl

theorem apply_trim (h : s.list? key = some items) (start stop : Int64) (second : UInt64) :
    (apply (.trim key start stop) second).run s = (.ok 1, s.putList key (ListOp.between start stop items)) := by
  have htrim : (trim key start stop).run s = (.ok (), s.putList key (ListOp.between start stop items)) := by
    rw [run_trim, h]
    simp only [trimmed_eq_between]
  rw [apply, Attempt.run_bind_ok htrim]
  rfl

theorem apply_removeAt (h : s.list? key = some items) (indexes : List Int64) (second : UInt64) :
    (apply (.removeAt key (IndexSet.normalize indexes)) second).run s =
      (.ok (items.length - (ListOp.keep (fun i _ => !ListOp.isListed indexes i) items).length),
        s.putList key (ListOp.keep (fun i _ => !ListOp.isListed indexes i) items)) := by
  rw [apply, run_removeAt, h]
  simp only [ListOp.removePositions_normalize]

end Store

end DurableLists

import Mathlib
import DurableLists.Proofs.Tx.Lacks
import DurableLists.Proofs.Tx.Reading

/-!
# Listings and lookups

A listing goes through the keys that have not expired and passes those that match its pattern to a callback, which
may end it (`Glob.passed`). Whatever the order is, a callback that never ends the listing is given every match once,
and one that ends it at some call is given as many matches as it is called (`Glob.isListing_of_perm`). The keys that
are gone through are exactly those whose length is told (`Tx.mem_live_iff`), and `Tx.keys_exact` puts both together:
what the listing finds out by itself, in the store, is what the checks of a lookup would say, but no check is made,
and so nothing is evicted.
-/

set_option autoImplicit false

namespace DurableLists

/-! ## Passing keys to a callback -/

namespace Glob

/-- The keys that are passed to a callback, of those that are gone through in order: the wanted ones, up to the one at
which the callback says not to go on. It is asked by the number of its call, the calls so far being given. -/
def passed (wanted : Bytes → Bool) (goesOn : Nat → Bool) : (calls : Nat) → List Bytes → List Bytes
  | _, [] => []
  | calls, key :: keys =>
    if wanted key then key :: if goesOn (calls + 1) then passed wanted goesOn (calls + 1) keys else []
    else passed wanted goesOn calls keys

/-- A callback that ends the enumeration at its call of a number, or at none. -/
def endsAt (last : Option Nat) (call : Nat) : Bool := last ≠ some call

variable {wanted : Bytes → Bool} {goesOn : Nat → Bool} {keys : List Bytes} {calls n : Nat}

theorem passed_of_goesOn (h : ∀ call, calls < call → goesOn call = true) :
    passed wanted goesOn calls keys = keys.filter wanted := by
  induction keys generalizing calls with
  | nil => rfl
  | cons key keys ih =>
    rw [passed]
    by_cases hwanted : wanted key = true
    · rw [if_pos hwanted, if_pos (h _ (Nat.lt_succ_self calls)), List.filter_cons_of_pos hwanted,
        ih fun call hcall => h call (Nat.lt_of_succ_lt hcall)]
    · rw [if_neg hwanted, List.filter_cons_of_neg hwanted, ih h]

theorem passed_endsAt (h : calls < n) :
    passed wanted (endsAt (some n)) calls keys = (keys.filter wanted).take (n - calls) := by
  induction keys generalizing calls with
  | nil => rw [passed, List.filter_nil, List.take_nil]
  | cons key keys ih =>
    rw [passed]
    by_cases hwanted : wanted key = true
    · have htake : n - calls = n - (calls + 1) + 1 := by omega
      rw [if_pos hwanted, List.filter_cons_of_pos hwanted, htake, List.take_succ_cons]
      by_cases hlast : n = calls + 1
      · -- This is the call that ends the enumeration.
        rw [if_neg (by simp [endsAt, hlast]), hlast, Nat.sub_self, List.take_zero]
      · rw [if_pos (by simp [endsAt, hlast]), ih (by omega)]
    · rw [if_neg hwanted, List.filter_cons_of_neg hwanted, ih h]

/-- A callback that ends the enumeration at a call before the first one never ends it. -/
theorem passed_endsAt_zero : passed wanted (endsAt (some 0)) 0 keys = keys.filter wanted :=
  passed_of_goesOn fun call hcall => by simp [endsAt, Nat.ne_of_lt hcall]

theorem passed_endsAt_none : passed wanted (endsAt none) calls keys = keys.filter wanted :=
  passed_of_goesOn fun _ _ => rfl

/-- What callbacks are given of some keys, gone through in an order: every wanted key once by one that never ends the
enumeration, and by one that ends it at a call, so many wanted keys, each once, or all of them if there are fewer. -/
structure IsListing (wanted : Bytes → Bool) (keys order : List Bytes) : Prop where
  nodup : (passed wanted (endsAt none) 0 order).Nodup
  mem_iff : ∀ key, key ∈ passed wanted (endsAt none) 0 order ↔ key ∈ keys ∧ wanted key = true
  length_eq : ∀ n, 0 < n → (passed wanted (endsAt (some n)) 0 order).length =
    min n (passed wanted (endsAt none) 0 order).length
  nodup_of_end : ∀ n, 0 < n → (passed wanted (endsAt (some n)) 0 order).Nodup
  subset : ∀ n, 0 < n → passed wanted (endsAt (some n)) 0 order ⊆ passed wanted (endsAt none) 0 order

theorem isListing_of_perm {order : List Bytes} (hkeys : keys.Nodup) (horder : order.Perm keys) :
    IsListing wanted keys order := by
  have hnodup : (order.filter wanted).Nodup := (horder.nodup_iff.mpr hkeys).filter _
  refine ⟨?_, fun key => ?_, fun n hn => ?_, fun n hn => ?_, fun n hn => ?_⟩
  · rwa [passed_endsAt_none]
  · rw [passed_endsAt_none, List.mem_filter, horder.mem_iff]
  · rw [passed_endsAt hn, passed_endsAt_none, List.length_take, Nat.sub_zero]
  · rw [passed_endsAt hn]
    exact hnodup.sublist (List.take_sublist _ _)
  · rw [passed_endsAt hn, passed_endsAt_none]
    exact List.take_subset _ _

end Glob

/-! ## The live keys of a store -/

namespace Store

/-- The keys that have a list and have not expired, in the order in which a listing goes through them. -/
def live (s : Store) (second : UInt64) : List Bytes := s.keys.filter fun key => !s.isExpired key second

variable {s : Store} {key : Bytes} {second : UInt64}

theorem nodup_live : (s.live second).Nodup := by
  refine List.Nodup.filter _ (List.Pairwise.imp ?_ Std.ExtTreeMap.distinct_keys)
  intro key other hdistinct hsame
  exact hdistinct (Std.compare_eq_iff_eq.mpr hsame)

theorem mem_live : key ∈ s.live second ↔ s.containsKey key = true ∧ s.isExpired key second = false := by
  rw [live, List.mem_filter, Bool.not_eq_true']
  exact and_congr_left' Std.ExtTreeMap.mem_keys

/-- A listing brings what is passed to the callback that ends it where it has to end. -/
theorem listed_eq_passed (s : Store) (pattern : String) (last : Option Nat) (second : UInt64) :
    s.listed pattern last second =
      Glob.passed (fun key => Glob.matchesText pattern.toList (Utf8.decodeLossy key)) (Glob.endsAt last) 0
        (s.live second) := by
  match last with
  | none => exact Glob.passed_endsAt_none.symm
  | some 0 => exact Glob.passed_endsAt_zero.symm
  | some (n + 1) => exact (Glob.passed_endsAt n.succ_pos).symm

end Store

/-! ## Listings of a transaction -/

namespace Tx

variable {committed : Index} {bucket : String} {tx : Tx} {env : Env}

/-- Whether the length of a list is told. -/
def TellsLength (committed : Index) (bucket : String) (key : Bytes) (w : Work) : Prop :=
  ∃ size w', ((Request.length key).perform committed bucket).run w = (.ok (.count size), w')

/-- A list whose length is told is there and has not expired, and the other way round. -/
theorem mem_live_iff (hopen : tx.isClosed = false) {store : Store} (hstore : tx.visible committed bucket = some store)
    (key : Bytes) : key ∈ store.live env.second ↔ TellsLength committed bucket key ⟨tx, env⟩ := by
  rw [Store.mem_live]
  constructor
  · rintro ⟨hcontains, hlive⟩
    rw [Store.containsKey_eq_isSome, Option.isSome_iff_exists] at hcontains
    obtain ⟨items, hlist⟩ := hcontains
    have hlength : store.length key = .ok items.length := by
      rw [Store.length, Store.list, hlist]
      rfl
    refine ⟨items.length, ⟨tx, env.tick⟩, Attempt.run_bind_pure ?_ Reply.count⟩
    rw [length, Attempt.run_bind_ok (run_checkRead hopen hstore hlive), run_look, hstore]
    simp only [hlength]
  · rintro ⟨size, w', htold⟩
    obtain ⟨size', w'', hlength, -⟩ := Attempt.of_run_bind htold
    obtain ⟨-, hlive, store', hstore', hanswer⟩ := of_run_read hlength
    cases hstore.symm.trans hstore'
    obtain ⟨items, hlist, -⟩ := Command.list?_of_length hanswer
    rw [SeesExpired, hstore] at hlive
    exact ⟨by rw [Store.containsKey_eq_isSome, hlist]; rfl, hlive⟩

/-- A listing of a bucket that an open transaction sees agrees with the lookups of the same second. It goes through
the keys whose length would be told, each once; what it brings are those that match, up to the call at which it has to
end; and it leaves the transaction as it is. In whatever order the same keys are gone through, all matches are passed
to a callback that never ends the listing, each once, and to one that ends it at its `n`-th call the smaller of `n`
and their number. -/
theorem keys_exact (hopen : tx.isClosed = false) (hbucket : (tx.visible committed bucket).isSome = true)
    (pattern : String) (env : Env) :
    ∃ live : List Bytes, live.Nodup ∧
      (∀ now : Env, now.second = env.second → ∀ key,
        key ∈ live ↔ TellsLength committed bucket key ⟨tx, now⟩) ∧
      (∀ last, ∃ trace, ((Request.keys pattern last).perform committed bucket).run ⟨tx, env⟩ =
        (.ok (.values (Glob.passed (fun key => Glob.matchesText pattern.toList (Utf8.decodeLossy key))
          (Glob.endsAt last) 0 live)), ⟨tx, ⟨env.clock.tick, trace⟩⟩)) ∧
      ∀ order : List Bytes, order.Perm live → ∀ wanted, Glob.IsListing wanted live order := by
  obtain ⟨store, hstore⟩ := Option.isSome_iff_exists.mp hbucket
  have hnodup : (store.live env.second).Nodup := Store.nodup_live
  refine ⟨store.live env.second, hnodup, fun now hnow key => ?_, fun last => ?_, fun order horder wanted =>
    Glob.isListing_of_perm hnodup horder⟩
  · rw [← hnow]
    exact mem_live_iff hopen hstore key
  · obtain ⟨trace, hkeys⟩ := run_keys hopen hstore pattern last env
    exact ⟨trace, by rw [hkeys, Store.listed_eq_passed]⟩

/-- A bucket with a list, one that has been emptied, one that has expired, one under a key that is no text, and an
expiry without a list. -/
def mixedStore : Store :=
  (((((∅ : Store).putList [107] [[97]]).putList [108] []).putList [109] [[97]]).putList [255] [[97]]
    |>.putExpiry [109] ⟨5, 100⟩).putExpiry [110] ⟨5, 300⟩

def mixedOpen : Tx := .writing ⟨[], (∅ : Index).install "b" mixedStore⟩

def mixedEnv : Env := ⟨.still 200 0, []⟩

/-- Three keys of the five are live, that of the emptied list and the one that is no text among them. With two calls
the listing brings the first two, and the expired list stays in place. -/
theorem keys_mixedOpen : mixedOpen.isClosed = false ∧ (mixedOpen.visible ∅ "b").isSome = true ∧
    ∃ live : List Bytes, ([107] ∈ live ∧ [108] ∈ live ∧ [255] ∈ live ∧ [109] ∉ live ∧ [110] ∉ live) ∧
      (∃ trace, ((Request.keys "?" (some 2)).perform ∅ "b").run ⟨mixedOpen, mixedEnv⟩ =
        (.ok (.values [[107], [108]]), ⟨mixedOpen, ⟨mixedEnv.clock.tick, trace⟩⟩)) ∧
      ∀ order : List Bytes, order.Perm live → ∀ wanted, Glob.IsListing wanted live order := by
  have hopen : mixedOpen.isClosed = false := rfl
  have hbucket : (mixedOpen.visible ∅ "b").isSome = true := by cbv
  obtain ⟨live, -, htold, hkeys, horder⟩ := keys_exact hopen hbucket "?" mixedEnv
  have hmem (key : Bytes) : key ∈ live ↔ TellsLength ∅ "b" key ⟨mixedOpen, mixedEnv⟩ := htold mixedEnv rfl key
  have hnotMem (key : Bytes) (hrefused : (((Request.length key).perform ∅ "b").run ⟨mixedOpen, mixedEnv⟩).1 =
      .error .keyNotFound) : key ∉ live := by
    intro hlive
    obtain ⟨size, w, hlength⟩ := (hmem key).mp hlive
    rw [hlength] at hrefused
    cases hrefused
  have hanswer : (((Request.keys "?" (some 2)).perform ∅ "b").run ⟨mixedOpen, mixedEnv⟩).1 =
      .ok (.values [[107], [108]]) := by cbv
  obtain ⟨trace, hrun⟩ := hkeys (some 2)
  refine ⟨hopen, hbucket, live, ⟨?_, ?_, ?_, ?_, ?_⟩, ⟨trace, ?_⟩, horder⟩
  · exact (hmem _).mpr ⟨1, _, Prod.ext (by cbv) rfl⟩
  · exact (hmem _).mpr ⟨0, _, Prod.ext (by cbv) rfl⟩
  · exact (hmem _).mpr ⟨1, _, Prod.ext (by cbv) rfl⟩
  · exact hnotMem _ (by cbv)
  · exact hnotMem _ (by cbv)
  · rw [hrun] at hanswer ⊢
    exact Prod.ext hanswer rfl

end Tx

end DurableLists

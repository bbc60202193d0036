import DurableLists.Proofs.Tx.Live

/-!
# Ranges and trims select the same

A trim of a list that a transaction sees is refused just when a range with its offsets is, and else leaves what the
range has answered; a replay of its record leaves that too (`Request.trim_agrees_with_range`). Both go by the positions
that the offsets select, whose span is resolved exactly.
-/

set_option autoImplicit false

namespace DurableLists

namespace Request

variable {committed : Index} {bucket : String} {key : Bytes} {items : List Bytes} {tx : Tx} {now : UInt64} {env : Env}

theorem run_range_of_seesLive (h : tx.SeesLive committed bucket key items env.second) (start stop : Int64) :
    ((Request.range key start stop).perform committed bucket).run ⟨tx, env⟩ =
      (if items ≠ [] ∧ ListOp.between start stop items = [] then .error .invalidRange
        else .ok (.values (ListOp.between start stop items)), ⟨tx, env.tick⟩) := by
  have hrange := h.run_range start stop
  by_cases hnone : items ≠ [] ∧ ListOp.between start stop items = []
  · rw [if_pos hnone] at hrange ⊢
    rw [perform, Attempt.run_bind_error hrange]
  · rw [if_neg hnone] at hrange ⊢
    rw [perform, Attempt.run_bind_ok hrange]
    rfl

theorem run_trim_refused (h : tx.SeesLive committed bucket key items now) (hstands : env.Stands now)
    {start stop : Int64} (hnone : items ≠ [] ∧ ListOp.between start stop items = []) :
    ((Request.trim key start stop).perform committed bucket).run ⟨tx, env⟩ =
      (.error .invalidRange, ⟨tx, env.tick.tick⟩) := by
  have htrim := Tx.SeesLive.run_trim_refused (hstands.second ▸ h) (hstands.tick.second ▸ h) hnone
  rw [perform, Attempt.run_bind_error htrim]

theorem run_trim (h : tx.SeesLive committed bucket key items now) (hstands : env.Stands now) {start stop : Int64}
    (hsome : ¬(items ≠ [] ∧ ListOp.between start stop items = [])) :
    ∃ w, ((Request.trim key start stop).perform committed bucket).run ⟨tx, env⟩ = (.ok .done, w) ∧
      tx.Puts committed bucket key (.trim key start stop) (ListOp.between start stop items) now w.tx ∧
      w.env.Stands now := by
  obtain ⟨w, htrim, hputs, hclock⟩ := Tx.SeesLive.run_trim (hstands.second ▸ h) (hstands.tick.second ▸ h) hsome
  refine ⟨w, ?_, hstands.tick.tick.second ▸ hputs, fun i hi => ?_⟩
  · rw [perform, Attempt.run_bind_ok htrim]
    rfl
  · rw [hclock] at hi ⊢
    exact hstands.tick.tick.tick i hi

theorem makes_trim (bucket : String) (key : Bytes) (items : List Bytes) (start stop : Int64) (second : UInt64) :
    (Record.ofCommand bucket (.trim key start stop) second).Makes bucket key items
      (ListOp.between start stop items) 1 :=
  Record.makes_ofCommand (Nat.two_pow_pos 64) fun _ hlist => Store.apply_trim hlist start stop second

/-- Two offsets are resolved exactly, in words of 64 bits, against a list of any size that is a word. A trim of a list
that a transaction sees and that has not expired is refused just when the range is, which leaves the transaction as it
was. Else the list becomes what the range has answered, here and wherever the record of the trim is replayed on an
equal list. -/
theorem trim_agrees_with_range :
    (∀ (start stop : Int64) (size : Nat), size < 2 ^ 63 →
      Span.resolve? start stop size = some (Span.resolve start stop size) ∧
      ((∃ span, Span.resolve start stop size = .ok span) ↔ ∃ i, Span.Selects start stop size i) ∧
      (∀ span, Span.resolve start stop size = .ok span → span.Covers start stop size) ∧
      ∀ e, Span.resolve start stop size = .error e → e = .invalidRange) ∧
    ∀ (committed : Index) (bucket : String) (key : Bytes) (items : List Bytes) (tx : Tx) (now : UInt64) (env : Env),
      tx.SeesLive committed bucket key items now → env.Stands now → ∀ start stop : Int64,
        ((items ≠ [] ∧ ∀ i, ¬Span.Selects start stop items.length i) ∧
          ((Request.range key start stop).perform committed bucket).run ⟨tx, env⟩ =
            (.error .invalidRange, ⟨tx, env.tick⟩) ∧
          ((Request.trim key start stop).perform committed bucket).run ⟨tx, env⟩ =
            (.error .invalidRange, ⟨tx, env.tick.tick⟩)) ∨
        ((items = [] ∨ ∃ i, Span.Selects start stop items.length i) ∧
          ((Request.range key start stop).perform committed bucket).run ⟨tx, env⟩ =
            (.ok (.values (ListOp.between start stop items)), ⟨tx, env.tick⟩) ∧
          ∃ w, ((Request.trim key start stop).perform committed bucket).run ⟨tx, env⟩ = (.ok .done, w) ∧
            ((Request.range key 0 (-1)).perform committed bucket).run w =
              (.ok (.values (ListOp.between start stop items)), ⟨w.tx, w.env.tick⟩) ∧
            ∃ r : Record, w.tx.pending = tx.pending ++ [r] ∧ r.command = .ok (.trim key start stop) ∧
              r.Makes bucket key items (ListOp.between start stop items) 1) := by
  refine ⟨fun start stop size hsize => ⟨Span.resolve?_eq start stop hsize, Span.resolve_eq_ok_iff,
    fun _ => Span.covers_of_resolve, fun _ herror => (Span.of_resolve_error herror).1⟩, ?_⟩
  intro committed bucket key items tx now env h hstands start stop
  have hrange := run_range_of_seesLive (hstands.second ▸ h) start stop
  by_cases hnone : items ≠ [] ∧ ListOp.between start stop items = []
  · rw [if_pos hnone] at hrange
    exact .inl ⟨⟨hnone.1, ListOp.between_eq_nil_iff.mp hnone.2⟩, hrange, run_trim_refused h hstands hnone⟩
  · rw [if_neg hnone] at hrange
    obtain ⟨w, htrim, hputs, hthen⟩ := run_trim h hstands hnone
    have hall := run_range_of_seesLive (hthen.second ▸ hputs.seesLive h) 0 (-1)
    rw [ListOp.between_all, if_neg fun hempty => hempty.1 hempty.2] at hall
    have hsome : items = [] ∨ ∃ i, Span.Selects start stop items.length i := by
      rw [ListOp.between_eq_nil_iff] at hnone
      by_contra hcontra
      rw [not_or, not_exists] at hcontra
      exact hnone hcontra
    have hwords : (Command.trim key start stop).indexes.length < 2 ^ 64 := Nat.two_pow_pos 64
    exact .inr ⟨hsome, hrange, w, htrim, hall, _, hputs.pending, Command.decode_encode hwords,
      makes_trim bucket key items start stop now⟩

/-- The last two elements of three are what a trim from the second last on leaves. -/
theorem trim_to_last_two :
    Span.resolve? (-2) Int64.maxValue (2 ^ 63 - 1) = some (Span.resolve (-2) Int64.maxValue (2 ^ 63 - 1)) ∧
      (Tx.begin true).SeesLive (Tx.listIndex [[97], [98], [99]]) "b" [107] [[97], [98], [99]] 100 ∧
      Env.Stands 100 ⟨.still 100 0, []⟩ ∧
      ∃ w w', ((Request.trim [107] (-2) 9).perform (Tx.listIndex [[97], [98], [99]]) "b").run
          ⟨Tx.begin true, ⟨.still 100 0, []⟩⟩ = (.ok .done, w) ∧
        ((Request.range [107] 0 (-1)).perform (Tx.listIndex [[97], [98], [99]]) "b").run w =
          (.ok (.values [[98], [99]]), w') := by
  have hlive := Tx.seesLive_listIndex [[97], [98], [99]] 100
  have hstands : Env.Stands 100 ⟨.still 100 0, []⟩ := fun _ _ => rfl
  refine ⟨(trim_agrees_with_range.1 _ _ _ (by decide)).1, hlive, hstands, ?_⟩
  obtain ⟨⟨-, hnone⟩, -⟩ | ⟨-, -, w, htrim, hrange, -⟩ :=
    trim_agrees_with_range.2 _ _ _ _ _ _ _ hlive hstands (-2) 9
  · exact absurd (by decide) (hnone 1)
  · have hbetween : ListOp.between (-2) 9 [[97], [98], [99]] = [[98], [99]] := by decide
    rw [hbetween] at hrange
    exact ⟨w, _, htrim, hrange⟩

end Request

end DurableLists

import DurableLists.Machine

/-!
# Reasoning about calls

A call that is known to answer, or to fail, is taken out of a sequence of calls by `run_bind_ok` and
`run_bind_error`; a sequence that has answered is taken apart by `of_run_bind`. `Ensures` says what holds of
every state that a call leaves: after an answer, which it may speak of, and after a failure. The report of an
event always succeeds (`Machine.run_emit`).
-/

set_option autoImplicit false

namespace DurableLists

namespace Attempt

variable {σ α β γ : Type}

theorem run_bind_ok {call : Attempt σ α} {next : α → Attempt σ β} {s t : σ} {a : α}
    (h : call.run s = (.ok a, t)) : run (call >>= next) s = (next a).run t := by
  rw [run_bind, h]

theorem run_bind_error {call : Attempt σ α} {next : α → Attempt σ β} {s t : σ} {e : Error}
    (h : call.run s = (.error e, t)) : run (call >>= next) s = (.error e, t) := by
  rw [run_bind, h]

theorem run_bind_pure {call : Attempt σ α} {s t : σ} {a : α} (h : call.run s = (.ok a, t)) (answer : α → β) :
    run (call >>= fun a => pure (answer a)) s = (.ok (answer a), t) := by
  rw [run_bind_ok h]
  rfl

/-- A sequence fails as its first two calls do. -/
theorem run_bind_bind_error {call : Attempt σ α} {middle : α → Attempt σ β} {next : β → Attempt σ γ} {s t : σ}
    {e : Error} (h : run (call >>= middle) s = (.error e, t)) :
    run (call >>= fun a => middle a >>= next) s = (.error e, t) := by
  rw [← bind_assoc, run_bind_error h]

theorem of_run_bind {call : Attempt σ α} {next : α → Attempt σ β} {s t : σ} {b : β}
    (h : run (call >>= next) s = (.ok b, t)) :
    ∃ a middle, call.run s = (.ok a, middle) ∧ (next a).run middle = (.ok b, t) := by
  rw [run_bind] at h
  rcases hcall : call.run s with ⟨_ | a, middle⟩
  · rw [hcall] at h
    cases h
  · rw [hcall] at h
    exact ⟨a, middle, rfl, h⟩

/-- What is answered after a call does not change its state. -/
theorem state_run_bind_pure (call : Attempt σ α) (answer : α → β) (s : σ) :
    (run (call >>= fun a => pure (answer a)) s).2 = (call.run s).2 := by
  rw [run_bind]
  rcases call.run s with ⟨_ | a, t⟩ <;> rfl

theorem run_mapM_cons {f : α → Attempt σ β} {x : α} {xs : List α} {b : β} {bs : List β} {s t u : σ}
    (hx : (f x).run s = (.ok b, t)) (hxs : run (xs.mapM f) t = (.ok bs, u)) :
    run ((x :: xs).mapM f) s = (.ok (b :: bs), u) := by
  rw [List.mapM_cons, run_bind_ok hx, run_bind_pure hxs]

theorem run_mapM_append {f : α → Attempt σ β} {xs ys : List α} {bs cs : List β} {s t u : σ}
    (hxs : run (xs.mapM f) s = (.ok bs, t)) (hys : run (ys.mapM f) t = (.ok cs, u)) :
    run ((xs ++ ys).mapM f) s = (.ok (bs ++ cs), u) := by
  rw [List.mapM_append, run_bind_ok hxs, run_bind_pure hys]

/-- From a state with `P` the call leaves one with `E` if it fails, and if it answers, one of which `Q`
holds with the answer. -/
def Ensures (P : σ → Prop) (call : Attempt σ α) (Q : α → σ → Prop) (E : σ → Prop) : Prop :=
  ∀ s, P s → match call.run s with
    | (.ok a, t) => Q a t
    | (.error _, t) => E t

namespace Ensures

variable {P P' E : σ → Prop} {Q Q' : α → σ → Prop} {R : β → σ → Prop} {call : Attempt σ α}
  {next : α → Attempt σ β}

theorem bind (h : Ensures P call Q E) (hnext : ∀ a, Ensures (Q a) (next a) R E) :
    Ensures P (call >>= next) R E := by
  intro s hs
  have hcall := h s hs
  rw [run_bind]
  revert hcall
  rcases call.run s with ⟨_ | a, t⟩
  · exact id
  · exact hnext a t

theorem weaken (h : Ensures P call Q E) (hpre : ∀ s, P' s → P s) (hpost : ∀ a s, Q a s → Q' a s) :
    Ensures P' call Q' E := by
  intro s hs
  have hcall := h s (hpre s hs)
  revert hcall
  rcases call.run s with ⟨_ | a, t⟩
  · exact id
  · exact hpost a t

theorem state (h : Ensures P call (fun _ => E) E) {s : σ} (hs : P s) : E (call.run s).2 := by
  have hcall := h s hs
  revert hcall
  rcases call.run s with ⟨_ | a, t⟩ <;> exact id

end Ensures

end Attempt

/-! ## Reports -/

def Machine.report (m : Machine) (event : Event) : Machine :=
  { m with env.trace := event :: m.env.trace }

theorem Machine.run_emit (m : Machine) (event : Event) :
    (Machine.onEnv (Env.emit event)).run m = (.ok (), m.report event) := rfl

theorem Machine.run_emit_bind {α : Type} (m : Machine) (event : Event) (call : Attempt Machine α) :
    Attempt.run (Machine.onEnv (Env.emit event) >>= fun _ => call) m = call.run (m.report event) :=
  Attempt.run_bind_ok (m.run_emit event)

end DurableLists

import DurableLists.Error

/-!
# Calls that may fail after a change

`Attempt σ α` is a call on a state of type `σ`: it answers or fails, and in both cases it leaves a
state behind. A failure therefore says nothing about the state by itself; that a failed call changes
nothing is a property to be shown of each call. `run` gives the answer and the state, and the lemmas
below say what `run` does to the ways in which calls are put together.
-/

set_option autoImplicit false

namespace DurableLists

/-- A call on a state that answers or fails and leaves a state in either case. -/
abbrev Attempt (σ α : Type) := ExceptT Error (StateM σ) α

namespace Attempt

variable {σ τ α β : Type}

def run (call : Attempt σ α) (s : σ) : Except Error α × σ := StateT.run (ExceptT.run call) s

def ofFn (f : σ → Except Error α × σ) : Attempt σ α := ExceptT.mk fun s => pure (f s)

/-- Answers with the outcome of a computation that does not look at the state. -/
def ofExcept (outcome : Except Error α) : Attempt σ α := ofFn fun s => (outcome, s)

def onPart (get : σ → τ) (set : τ → σ → σ) (call : Attempt τ α) : Attempt σ α :=
  ofFn fun s =>
    let (outcome, part) := call.run (get s)
    (outcome, set part s)

def outcome (call : Attempt σ α) : Attempt σ (Except Error α) :=
  ofFn fun s =>
    let (result, s) := call.run s
    (.ok result, s)

@[simp] theorem run_pure (a : α) (s : σ) : run (pure a : Attempt σ α) s = (.ok a, s) := rfl

@[simp] theorem run_throw (e : Error) (s : σ) :
    run (throw e : Attempt σ α) s = (.error e, s) := rfl

@[simp] theorem run_get (s : σ) : run (get : Attempt σ σ) s = (.ok s, s) := rfl

@[simp] theorem run_set (s t : σ) : run (set t : Attempt σ Unit) s = (.ok (), t) := rfl

@[simp] theorem run_modify (f : σ → σ) (s : σ) :
    run (modify f : Attempt σ Unit) s = (.ok (), f s) := rfl

@[simp] theorem run_ofFn (f : σ → Except Error α × σ) (s : σ) : run (ofFn f) s = f s := rfl

@[simp] theorem run_ofExcept (outcome : Except Error α) (s : σ) :
    run (ofExcept outcome) s = (outcome, s) := rfl

theorem run_bind (call : Attempt σ α) (next : α → Attempt σ β) (s : σ) :
    run (call >>= next) s =
      match run call s with
      | (.ok a, s) => run (next a) s
      | (.error e, s) => (.error e, s) := by
  simp only [run, bind, ExceptT.bind, ExceptT.run, ExceptT.mk, StateT.bind, StateT.run]
  rcases call s with ⟨_ | _, _⟩ <;> rfl

@[simp] theorem run_onPart (get : σ → τ) (set : τ → σ → σ) (call : Attempt τ α) (s : σ) :
    run (onPart get set call) s = ((call.run (get s)).1, set (call.run (get s)).2 s) := rfl

@[simp] theorem run_outcome (call : Attempt σ α) (s : σ) :
    run (outcome call) s = (.ok (call.run s).1, (call.run s).2) := rfl

end Attempt

end DurableLists

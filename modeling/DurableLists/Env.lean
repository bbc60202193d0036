import DurableLists.Event
import DurableLists.Attempt

/-!
# Clock and trace

Calls read the time and report events. A clock is given by all its readings in order, so two readings in
one call may differ and time may run backwards; a clock whose readings are all alike stands still. The
trace keeps the events reported so far.
-/

set_option autoImplicit false

namespace DurableLists

/-- A clock, by its readings: of the Unix second, and of the nanoseconds that the machine is up. -/
structure Clock where
  wall : Nat → UInt64
  uptime : Nat → Nat
  taken : Nat

namespace Clock

def still (second : UInt64) (uptime : Nat) : Clock := ⟨fun _ => second, fun _ => uptime, 0⟩

/-- The clock with all later readings of the second replaced; a moment before the first Unix second
reads as that second. -/
def setWall (second : Int) (c : Clock) : Clock :=
  { c with wall := fun _ => UInt64.ofNat second.toNat }

/-- The clock with so many nanoseconds added to all later readings of the time up. -/
def advance (nanoseconds : Nat) (c : Clock) : Clock :=
  { c with uptime := fun i => c.uptime i + nanoseconds }

def tick (c : Clock) : Clock := { c with taken := c.taken + 1 }

end Clock

/-- What a call reads the time from and reports to. -/
structure Env where
  clock : Clock
  /-- The events so far, the latest first. -/
  trace : List Event

namespace Env

def now : Attempt Env UInt64 := do
  let env ← get
  set { env with clock := env.clock.tick }
  return env.clock.wall env.clock.taken

def uptime : Attempt Env Nat := do
  let env ← get
  set { env with clock := env.clock.tick }
  return env.clock.uptime env.clock.taken

def emit (event : Event) : Attempt Env Unit :=
  modify fun env => { env with trace := event :: env.trace }

def emitAll (events : List Event) : Attempt Env Unit :=
  modify fun env => { env with trace := events.reverse ++ env.trace }

/-- Takes the events so far out of the trace, the earliest first. -/
def takeEvents : Attempt Env (List Event) := do
  let env ← get
  set { env with trace := [] }
  return env.trace.reverse

end Env

end DurableLists

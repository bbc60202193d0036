import DurableLists.Disk
import DurableLists.Env

/-!
# The machine

What a database runs on: files, a clock, and the trace of events.
-/

set_option autoImplicit false

namespace DurableLists

/-- Files, clock and trace. -/
structure Machine where
  disk : Disk
  env : Env

namespace Machine

/-- A machine with an empty working directory, whose clock stands still. -/
def fresh (second : Int) : Machine where
  disk := .fresh
  env := ⟨(Clock.still 0 0).setWall second, []⟩

def onEnv {α : Type} (call : Attempt Env α) : Attempt Machine α :=
  Attempt.onPart Machine.env (fun env m => { m with env }) call

/-- Makes a request to the file system that leaves it as it is if it fails. -/
def onDisk {α : Type} (request : Disk → Except IoError (α × Disk)) : Attempt Machine α :=
  Attempt.ofFn fun m =>
    match request m.disk with
    | .ok (a, disk) => (.ok a, { m with disk })
    | .error cause => (.error (.io cause), m)

/-- Creates the directories above what a path names; a failure keeps those that were created. -/
def createParents (path : String) : Attempt Machine Unit :=
  Attempt.ofFn fun m =>
    match m.disk.createParents path with
    | (none, disk) => (.ok (), { m with disk })
    | (some cause, disk) => (.error (.io cause), { m with disk })

end Machine

end DurableLists

import DurableLists.Duration

/-!
# Configuration

What can be chosen when a database is opened, and the choices made for whoever makes none.
-/

set_option autoImplicit false

namespace DurableLists

/-- When a log is forced to stable storage. -/
inductive SyncPolicy where
  | always
  /-- After a batch that comes at least the sync interval after the last time. -/
  | everySecond
  | never
  deriving DecidableEq, Repr

namespace SyncPolicy

def title : SyncPolicy → String
  | .always => "Always"
  | .everySecond => "EverySec"
  | .never => "No"

def keyword : SyncPolicy → String
  | .always => "always"
  | .everySecond => "everysec"
  | .never => "no"

def ofKeyword? (keyword : String) : Option SyncPolicy :=
  [.always, .everySecond, .never].find? fun policy => policy.keyword == keyword

end SyncPolicy

/-- The choices about the log. -/
structure Persistence where
  enabled : Bool
  logPath : String
  policy : SyncPolicy
  interval : Duration
  deriving DecidableEq, Repr

/-- A log under the default path, forced to storage about once a second. -/
def Persistence.standard : Persistence where
  enabled := true
  logPath := "spinelkv_data/commands.log"
  policy := .everySecond
  interval := .of 1 0

/-- The choices about a database. -/
structure Config where
  logLevel : String
  persistence : Persistence
  deriving DecidableEq, Repr

def Config.standard : Config where
  logLevel := "info"
  persistence := .standard

end DurableLists

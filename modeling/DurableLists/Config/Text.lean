import DurableLists.Config.Check
import DurableLists.Duration.Text
import DurableLists.Toml.Document
import DurableLists.Disk

/-!
# Configurations as text

A configuration is a TOML document with the log level and a table about the log. What is missing has its
default and what is unknown is passed over, if it can be read. The table may also be an array of its
values in order, of which further ones are not read, or a date, which says nothing about the log. The
sync policy is a word, or a table with that word as its only key and nothing under it.
-/

set_option autoImplicit false

namespace DurableLists

open Toml

namespace Toml.Item

def text? : Item → Option String
  | .string text => some text
  | _ => none

def boolean? : Item → Option Bool
  | .boolean value => some value
  | _ => none

def duration? : Item → Option Duration
  | .string text => Duration.parse? text
  | _ => none

def isVoid : Item → Bool
  | .array items => items.isEmpty
  | .table _ entries => entries.isEmpty
  | .tables rows => rows.isEmpty
  | _ => false

def policy? : Item → Option SyncPolicy
  | .string keyword => SyncPolicy.ofKeyword? keyword
  | .table _ [(keyword, item)] => if item.isVoid then SyncPolicy.ofKeyword? keyword else none
  | _ => none

end Toml.Item

def valueOr {α : Type} (read : Item → Option α) (default : α) : Option Item → Option α
  | none => some default
  | some item => read item

/-- The choices about the log, from what is under the name of each of them. -/
def Persistence.ofItems? (get : String → Option Item) : Option Persistence := do
  let standard := Persistence.standard
  let enabled ← valueOr Item.boolean? standard.enabled (get "enabled")
  let logPath ← valueOr Item.text? standard.logPath (get "log_path")
  let policy ← valueOr Item.policy? standard.policy (get "appendfsync")
  let interval ← valueOr Item.duration? standard.interval (get "fsync_interval")
  return { enabled, logPath, policy, interval }

/-- The names of the choices about the log, in the order of an array. -/
def Persistence.names : List String := ["enabled", "log_path", "appendfsync", "fsync_interval"]

/-- Whether what stands under other names than those given can be passed over. -/
def Toml.Entries.othersReadable (names : List String) (entries : Entries) : Bool :=
  entries.all fun entry => names.contains entry.1 || entry.2.isReadable

def Persistence.ofItem? : Item → Option Persistence
  | .table _ entries =>
    if Entries.othersReadable names entries then ofItems? (Entries.get? entries) else none
  | .array items => ofItems? (Entries.get? (names.zip items))
  | .date => some .standard
  | _ => none

def Config.ofEntries? (entries : Entries) : Option Config := do
  if !entries.othersReadable ["log_level", "persistence"] then none
  let logLevel ← valueOr Item.text? Config.standard.logLevel (entries.get? "log_level")
  let persistence ← valueOr Persistence.ofItem? Config.standard.persistence
    (entries.get? "persistence")
  return { logLevel, persistence }

/-- The sound configuration that a text describes, and what is to be reported about it. -/
def Config.parse (text : String) : Except ConfigError (Config × List Event) :=
  match (Entries.parse? text).bind Config.ofEntries? with
  | none => .error .notConfiguration
  | some config => config.check.map fun events => (config, events)

/-- The sound configuration that a file describes, and what is to be reported about it. -/
def Config.load (disk : Disk) (path : String) : Except ConfigError (Config × List Event) := do
  match disk.read path with
  | .error cause => throw (.unreadable path cause)
  | .ok content =>
    match Utf8.decode content with
    | .error _ => throw (.unreadable path .notText)
    | .ok text => (Config.parse text).mapError (.unusable path)

end DurableLists

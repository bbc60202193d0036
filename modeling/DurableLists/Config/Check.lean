import DurableLists.Event
import DurableLists.Text.Blank

/-!
# Sound configurations

A configuration can be written down correctly and still make no sense; `Config.check` finds this out. A
choice that is allowed but unwise is reported.
-/

set_option autoImplicit false

namespace DurableLists

/-- Why a configuration cannot be used. -/
inductive ConfigError where
  | emptyLogLevel
  | emptyLogPath
  | zeroInterval
  | notConfiguration
  | unreadable (path : String) (cause : IoError)
  /-- The file can be read, but what it holds cannot be used. -/
  | unusable (path : String) (cause : ConfigError)
  deriving DecidableEq, Repr

def ConfigError.message : ConfigError → String
  | .emptyLogLevel => "log_level cannot be empty"
  | .emptyLogPath => "persistence.log_path cannot be empty when persistence is enabled"
  | .zeroInterval =>
    "persistence.fsync_interval must be greater than 0 when appendfsync is 'everysec'"
  | .notConfiguration => "Failed to parse TOML"
  | .unreadable path cause => s!"Failed to read config file at '{path}': " ++ cause.message
  | .unusable path cause => s!"Failed to load configuration from '{path}': " ++ cause.message

/-- Refuses a configuration that makes no sense; answers what is to be reported about one that does. A
log that is not used may be described in any way. -/
def Config.check (config : Config) : Except ConfigError (List Event) :=
  let log := config.persistence
  if Blank.isBlank config.logLevel then .error .emptyLogLevel
  else if !log.enabled then .ok []
  else if Blank.isBlank log.logPath then .error .emptyLogPath
  else if log.policy = .everySecond ∧ log.interval.isZero then .error .zeroInterval
  else .ok (if log.policy = .never then [.durabilityWaived] else [])

end DurableLists

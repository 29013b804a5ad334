import CodeAudit.Engine
import CodeAudit.History
import CodeAudit.Live
import CodeAudit.Log
import CodeAudit.Duration

/-!
# Settings

Everything that can be set, with defaults; what is out of range; and what the environment overrides.
-/
namespace CodeAudit

/-- How the service answers. -/
structure ServerSettings where
  addr : Text := "localhost:8080"
  readTimeout : Int := 15 * Duration.second
  writeTimeout : Int := 30 * Duration.second
  idleTimeout : Int := 60 * Duration.second
  /-- The largest code that is accepted. -/
  maxCodeBytes : Int := 1048576
  /-- How long a text rests before a live analysis. -/
  debounce : Int := Live.defaultDelay
  /-- The origins that may ask; a star stands for all of them. -/
  allowedOrigins : Option (List Text) := some ["*"]
  deriving DecidableEq, Repr

/-- What is logged and how. -/
structure LogSettings where
  level : Text := "info"
  json : Bool := false
  deriving DecidableEq, Repr

/-- Everything that can be set. -/
structure Settings where
  engine : EngineSettings := {}
  server : ServerSettings := {}
  logging : LogSettings := {}
  /-- How many analyses are remembered. -/
  maxEntries : Int := History.defaultLimit
  deriving DecidableEq, Repr

namespace Settings

/-- A setting that is out of range. -/
inductive Invalid where
  | engine (f : SettingsFault)
  | noAddress
  | debounce (d : Int)
  | maxCodeBytes (n : Int)
  | timeouts
  | maxEntries (n : Int)
  | logLevel (t : Text)
  | logLevelFlag (t : Text)
  deriving DecidableEq, Repr

def Invalid.message (i : Invalid) : Text :=
  "invalid config: " ++ match i with
    | .engine f => "engine: " ++ f.message
    | .noAddress => utf8 "server.addr is empty"
    | .debounce d => "server.debounce must not be negative, got " ++ Duration.text d
    | .maxCodeBytes n => "server.max_code_bytes must be positive, got " ++ Text.ofInt n
    | .timeouts => utf8 "server timeouts must not be negative"
    | .maxEntries n => "history.max_entries must be at least 1, got " ++ Text.ofInt n
    | .logLevel t =>
      "logging.level " ++ Text.quote t ++ " is not one of trace, debug, info, warn, error"
    | .logLevelFlag t =>
      "--log-level " ++ Text.quote t ++ " is not one of trace, debug, info, warn, error"

/-- The first setting that is out of range. -/
def invalid? (s : Settings) : Option Invalid :=
  match s.engine.fault? with
  | some f => some (.engine f)
  | none =>
    if (Text.trim s.server.addr).isEmpty then some .noAddress
    else if s.server.debounce < 0 then some (.debounce s.server.debounce)
    else if s.server.maxCodeBytes ≤ 0 then some (.maxCodeBytes s.server.maxCodeBytes)
    else if s.server.readTimeout < 0 || s.server.writeTimeout < 0 || s.server.idleTimeout < 0 then
      some .timeouts
    else if s.maxEntries < 1 then some (.maxEntries s.maxEntries)
    else if !Log.Level.isValid s.logging.level then some (.logLevel s.logging.level)
    else none

/-- The variable that overrides the level of the log. -/
def levelVariable : Text := "OWASPSCAN_LOG_LEVEL"

/-- The variable that overrides the address. -/
def addressVariable : Text := "OWASPSCAN_ADDR"

/-- The settings under the variables of the environment; blank ones do not count. -/
def override (s : Settings) (environment : Text → Text) : Settings :=
  let level := Text.trim (environment levelVariable)
  let addr := Text.trim (environment addressVariable)
  { s with
    logging := if level.isEmpty then s.logging else { s.logging with level := level }
    server := if addr.isEmpty then s.server else { s.server with addr := addr } }

def logger (s : Settings) (environment : Text → Text) (name : Text) : Logger :=
  .ofName (Logger.styleOf s.logging.json s.logging.level (environment levelVariable)) name

end Settings
end CodeAudit

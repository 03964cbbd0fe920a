/-
The configuration of a client: how long things may take, how many connections it keeps and how large responses may
be. Times are in milliseconds.
-/
import Hypertext.Config.Error
import Hypertext.Time.Duration

namespace Hypertext

structure ClientConfig where
  connectTimeout : Nat
  readTimeout : Nat
  poolTimeout : Nat
  maxConnectionsPerTarget : Nat
  maxResponseBytes : Nat
  userAgent : String
  deriving DecidableEq, Repr

namespace ClientConfig

def default : ClientConfig where
  connectTimeout := 10000
  readTimeout := 30000
  poolTimeout := 30000
  maxConnectionsPerTarget := 8
  maxResponseBytes := 64 * 1024 * 1024
  userAgent := "potato/0.1.0"

/-- Refuses what a client could not work with. -/
def validate (c : ClientConfig) : Except ConfigError Unit := do
  ConfigError.require (c.maxConnectionsPerTarget != 0) "max_connections_per_target" "must be at least 1"
  ConfigError.require (c.connectTimeout != 0 && c.readTimeout != 0) "timeouts" "must be positive"

def shape : Json.Shape ClientConfig where
  name := "ClientConfig"
  fields :=
    [Config.millisField "connect_timeout_ms" fun connectTimeout c => { c with connectTimeout },
      Config.millisField "read_timeout_ms" fun readTimeout c => { c with readTimeout },
      Config.millisField "pool_timeout_ms" fun poolTimeout c => { c with poolTimeout },
      Config.sizeField "max_connections_per_target"
        fun maxConnectionsPerTarget c => { c with maxConnectionsPerTarget },
      Config.sizeField "max_response_bytes" fun maxResponseBytes c => { c with maxResponseBytes },
      Json.field "user_agent" (Json.readText "a string") fun userAgent c => { c with userAgent }]
  defaults := true
  closed := true

/-- Reads a configuration from a JSON text; what is not said there is as in the default. -/
def ofJson (text : String) : Except ConfigError ClientConfig := do
  let c ← Config.readJson shape default text
  c.validate
  return c

/-! ## Spans of time -/

def withConnectTimeout (d : Duration) (c : ClientConfig) : ClientConfig := { c with connectTimeout := d.wordMillis }

def withReadTimeout (d : Duration) (c : ClientConfig) : ClientConfig := { c with readTimeout := d.wordMillis }

def withPoolTimeout (d : Duration) (c : ClientConfig) : ClientConfig := { c with poolTimeout := d.wordMillis }

end ClientConfig

end Hypertext

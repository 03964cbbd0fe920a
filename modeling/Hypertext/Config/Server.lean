/-
The configuration of a server: where it listens, how long things may take and how large requests may be. Times are
in milliseconds.
-/
import Hypertext.Config.Error
import Hypertext.Net.Address
import Hypertext.Text.Blank
import Hypertext.Time.Duration

namespace Hypertext

structure ServerConfig where
  address : Net.SocketAddress
  backlog : Nat
  handlerTimeout : Nat
  idleTimeout : Nat
  drainTimeout : Nat
  maxRequestBytes : Nat
  compressResponses : Bool
  deriving DecidableEq, Repr

namespace ServerConfig

def default : ServerConfig where
  address := .v4 ⟨127, 0, 0, 1⟩ 8080
  backlog := 1024
  handlerTimeout := 30000
  idleTimeout := 60000
  drainTimeout := 30000
  maxRequestBytes := 8 * 1024 * 1024
  compressResponses := true

def maxBacklog : Nat := 4294967295

/-- Refuses what a server could not work with. -/
def validate (c : ServerConfig) : Except ConfigError Unit := do
  ConfigError.require (c.backlog != 0) "backlog" "must be at least 1"
  ConfigError.require (c.handlerTimeout != 0) "handler_timeout_ms" "must be positive"
  ConfigError.require (c.idleTimeout != 0) "idle_timeout_ms" "must be positive"
  ConfigError.require (c.maxRequestBytes != 0) "max_request_bytes" "must be positive"

/-! ## JSON -/

def shape : Json.Shape ServerConfig where
  name := "ServerConfig"
  fields :=
    [Json.field "addr"
        (Json.readParsed "socket address" Net.SocketAddress.syntaxMessage Net.SocketAddress.parse?)
        fun address c => { c with address },
      Json.field "backlog" (Json.readUnsigned maxBacklog "u32") fun backlog c => { c with backlog },
      Config.millisField "handler_timeout_ms" fun handlerTimeout c => { c with handlerTimeout },
      Config.millisField "idle_timeout_ms" fun idleTimeout c => { c with idleTimeout },
      Config.millisField "drain_timeout_ms" fun drainTimeout c => { c with drainTimeout },
      Config.sizeField "max_request_bytes" fun maxRequestBytes c => { c with maxRequestBytes },
      Json.field "compress_responses" Json.readBool fun compressResponses c => { c with compressResponses }]
  defaults := true
  closed := true

/-- Reads a configuration from a JSON text; what is not said there is as in the default. -/
def ofJson (text : String) : Except ConfigError ServerConfig := do
  let c ← Config.readJson shape default text
  c.validate
  return c

/-! ## Variables -/

/-- Reads a variable with blanks around its value; the message of a refusal quotes the value. -/
def readVariable {α : Type} (name value : String) (read : String → Except String α) : Except ConfigError α :=
  (read (Text.trim value)).mapError fun e => .invalidValue name s!"{Text.quote value}: {e}"

def numberOf (max : Nat) (s : String) : Except String Nat := (Text.readNat max s).mapError Text.IntegerError.message

def boolOf : String → Except String Bool
  | "true" => .ok true
  | "false" => .ok false
  | _ => .error "provided string was not `true` or `false`"

def addressOf (s : String) : Except String Net.SocketAddress :=
  match Net.SocketAddress.parse? s with
  | some a => .ok a
  | none => .error Net.SocketAddress.syntaxMessage

/-- Stores the value of a variable if it is set. -/
def useVariable {α : Type} (lookup : String → Option String) (name : String) (read : String → Except String α)
    (store : α → ServerConfig → ServerConfig) (c : ServerConfig) : Except ConfigError ServerConfig :=
  match lookup name with
  | none => .ok c
  | some value => (readVariable name value read).map fun a => store a c

/-- Reads a configuration from variables; what is not set is as in the default. -/
def ofVariables (lookup : String → Option String) : Except ConfigError ServerConfig := do
  let c := default
  let c ← useVariable lookup "POTATO_ADDR" addressOf (fun address c => { c with address }) c
  let c ← useVariable lookup "POTATO_BACKLOG" (numberOf maxBacklog) (fun backlog c => { c with backlog }) c
  let word := numberOf Text.maxWord
  let c ← useVariable lookup "POTATO_HANDLER_TIMEOUT_MS" word
    (fun handlerTimeout c => { c with handlerTimeout }) c
  let c ← useVariable lookup "POTATO_IDLE_TIMEOUT_MS" word (fun idleTimeout c => { c with idleTimeout }) c
  let c ← useVariable lookup "POTATO_DRAIN_TIMEOUT_MS" word (fun drainTimeout c => { c with drainTimeout }) c
  let c ← useVariable lookup "POTATO_MAX_REQUEST_BYTES" word (fun maxRequestBytes c => { c with maxRequestBytes }) c
  let c ← useVariable lookup "POTATO_COMPRESS_RESPONSES" boolOf
    (fun compressResponses c => { c with compressResponses }) c
  c.validate
  return c

/-! ## Spans of time -/

def withHandlerTimeout (d : Duration) (c : ServerConfig) : ServerConfig := { c with handlerTimeout := d.wordMillis }

def withIdleTimeout (d : Duration) (c : ServerConfig) : ServerConfig := { c with idleTimeout := d.wordMillis }

def withDrainTimeout (d : Duration) (c : ServerConfig) : ServerConfig := { c with drainTimeout := d.wordMillis }

end ServerConfig

end Hypertext

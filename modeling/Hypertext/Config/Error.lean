/-
What can be wrong with a configuration.
-/
import Hypertext.Json.Decode
import Hypertext.Text.Integer

namespace Hypertext

inductive ConfigError
  | json (error : Json.Error)
  | invalidValue (field reason : String)

namespace ConfigError

def message : ConfigError → String
  | .json e => s!"invalid configuration JSON: {e.message}"
  | .invalidValue field reason => s!"invalid value for {field}: {reason}"

/-- Refuses a value unless a condition holds. -/
def require (condition : Bool) (field reason : String) : Except ConfigError Unit :=
  if condition then .ok () else .error (.invalidValue field reason)

end ConfigError

namespace Config

/-- Reads a record from a JSON text, its fields stored into `start`. -/
def readJson {σ : Type} (shape : Json.Shape σ) (start : σ) (text : String) : Except ConfigError σ :=
  (Json.whole (Json.readRecord shape start) (Bytes.ofText text)).mapError .json

/-- A field that holds a number of milliseconds. -/
def millisField {σ : Type} (name : String) (store : Nat → σ → σ) : Json.Field σ :=
  Json.field name (Json.readUnsigned Text.maxWord "u64") store

/-- A field that holds a number of bytes or of things. -/
def sizeField {σ : Type} (name : String) (store : Nat → σ → σ) : Json.Field σ :=
  Json.field name (Json.readUnsigned Text.maxWord "usize") store

end Config

end Hypertext

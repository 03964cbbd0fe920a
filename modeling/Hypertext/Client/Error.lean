/-
How a request of a client can fail.
-/
import Hypertext.Json.Fault
import Hypertext.Time.Duration

namespace Hypertext

inductive ClientError
  | invalidUrl (url reason : String)
  | unsupportedScheme (scheme : String)
  | connectTimeout (target : String) (limit : Duration)
  | connect (target reason : String)
  | readTimeout (limit : Duration)
  | protocolViolation (text : String)
  | poolExhausted (target : String) (waited : Duration)
  | json (error : Json.Error)
  | stream (text : String)

namespace ClientError

def message : ClientError → String
  | .invalidUrl url reason => s!"invalid URL {Text.quote url}: {reason}"
  | .unsupportedScheme scheme => s!"unsupported URL scheme {Text.quote scheme}"
  | .connectTimeout target limit => s!"timed out after {limit.text} connecting to {target}"
  | .connect target reason => s!"failed to connect to {target}: {reason}"
  | .readTimeout limit => s!"no response within {limit.text}"
  | .protocolViolation text => s!"protocol violation: {text}"
  | .poolExhausted target waited => s!"no connection to {target} became available within {waited.text}"
  | .json e => s!"serialization error: {e.message}"
  | .stream text => s!"I/O error: {text}"

/-- Whether the request certainly has not been sent, so that it can be tried again. -/
def isRetryable : ClientError → Bool
  | .connectTimeout .. | .connect .. | .poolExhausted .. => true
  | _ => false

end ClientError

end Hypertext

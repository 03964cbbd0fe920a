/-
Status codes a response can be built with.
-/

namespace Hypertext

inductive Status
  | ok
  | created
  | accepted
  | noContent
  | movedPermanently
  | found
  | notModified
  | badRequest
  | unauthorized
  | forbidden
  | notFound
  | methodNotAllowed
  | requestTimeout
  | conflict
  | lengthRequired
  | payloadTooLarge
  | unprocessableEntity
  | tooManyRequests
  | internalServerError
  | notImplemented
  | badGateway
  | serviceUnavailable
  | gatewayTimeout
  | httpVersionNotSupported
  deriving DecidableEq, Repr

namespace Status

def code : Status → Nat
  | .ok => 200
  | .created => 201
  | .accepted => 202
  | .noContent => 204
  | .movedPermanently => 301
  | .found => 302
  | .notModified => 304
  | .badRequest => 400
  | .unauthorized => 401
  | .forbidden => 403
  | .notFound => 404
  | .methodNotAllowed => 405
  | .requestTimeout => 408
  | .conflict => 409
  | .lengthRequired => 411
  | .payloadTooLarge => 413
  | .unprocessableEntity => 422
  | .tooManyRequests => 429
  | .internalServerError => 500
  | .notImplemented => 501
  | .badGateway => 502
  | .serviceUnavailable => 503
  | .gatewayTimeout => 504
  | .httpVersionNotSupported => 505

def reason : Status → String
  | .ok => "OK"
  | .created => "Created"
  | .accepted => "Accepted"
  | .noContent => "No Content"
  | .movedPermanently => "Moved Permanently"
  | .found => "Found"
  | .notModified => "Not Modified"
  | .badRequest => "Bad Request"
  | .unauthorized => "Unauthorized"
  | .forbidden => "Forbidden"
  | .notFound => "Not Found"
  | .methodNotAllowed => "Method Not Allowed"
  | .requestTimeout => "Request Timeout"
  | .conflict => "Conflict"
  | .lengthRequired => "Length Required"
  | .payloadTooLarge => "Payload Too Large"
  | .unprocessableEntity => "Unprocessable Entity"
  | .tooManyRequests => "Too Many Requests"
  | .internalServerError => "Internal Server Error"
  | .notImplemented => "Not Implemented"
  | .badGateway => "Bad Gateway"
  | .serviceUnavailable => "Service Unavailable"
  | .gatewayTimeout => "Gateway Timeout"
  | .httpVersionNotSupported => "HTTP Version Not Supported"

def all : List Status :=
  [.ok, .created, .accepted, .noContent, .movedPermanently, .found, .notModified, .badRequest, .unauthorized,
    .forbidden, .notFound, .methodNotAllowed, .requestTimeout, .conflict, .lengthRequired, .payloadTooLarge,
    .unprocessableEntity, .tooManyRequests, .internalServerError, .notImplemented, .badGateway,
    .serviceUnavailable, .gatewayTimeout, .httpVersionNotSupported]

/-- The status with this code, if it is one that can be sent. -/
def ofCode? (code : Nat) : Option Status := all.find? (·.code == code)

@[simp]
theorem ofCode?_code (s : Status) : ofCode? s.code = some s := by cases s <;> rfl

/-- The code and the phrase. -/
def text (s : Status) : String := s!"{s.code} {s.reason}"

def isClientError (s : Status) : Bool := 400 ≤ s.code && s.code < 500

def isServerError (s : Status) : Bool := 500 ≤ s.code

/-- A response with this status has neither a body nor a length. -/
def forbidsBody : Status → Bool
  | .noContent | .notModified => true
  | _ => false

end Status

end Hypertext

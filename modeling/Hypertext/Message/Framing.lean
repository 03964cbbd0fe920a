/-
How the end of a message body is found: from the header fields, and for responses also from the status and the
request that is answered.
-/
import Hypertext.Message.Headers

namespace Hypertext

inductive BodyError
  | invalidLength
  | unsupportedCoding (coding : String)
  | invalidChunk
  | tooLarge (limit : Nat)
  deriving DecidableEq, Repr

def BodyError.message : BodyError → String
  | .invalidLength => "invalid Content-Length header"
  | .unsupportedCoding coding => s!"unsupported transfer coding: {coding}"
  | .invalidChunk => "malformed chunked encoding"
  | .tooLarge limit => s!"body exceeds maximum allowed size of {limit} bytes"

/-- How a body ends: at once, after a number of bytes, after its last chunk, or with the connection. -/
inductive Framing
  | empty
  | length (n : Nat)
  | chunked
  | untilClose
  deriving DecidableEq, Repr

namespace Framing

def ofLength (n : Nat) : Framing := if n = 0 then .empty else .length n

/-- Of several announced lengths all have to be lengths and equal. -/
def ofLengths : List String → Except BodyError (Option Framing)
  | [] => .ok none
  | v :: others =>
    match Headers.length? v with
    | none => .error .invalidLength
    | some n =>
      if others.all fun o => Headers.length? o == some n then .ok (some (ofLength n)) else .error .invalidLength

/-- The framing that the fields announce. Transfer codings go before lengths; the last coding has to be the
chunked one. -/
def announced (h : Headers) : Except BodyError (Option Framing) :=
  if h.contains "transfer-encoding" then
    let last := ((h.elements "transfer-encoding").filter (· != "")).getLastD ""
    if Text.sameName last "chunked" then .ok (some .chunked) else .error (.unsupportedCoding last)
  else ofLengths (h.getAll "content-length")

/-- The framing of a request body; a request that announces none has none. -/
def forRequest (h : Headers) : Except BodyError Framing := (announced h).map (·.getD .empty)

/-- The framing of a response body: responses to HEAD and those with a status that forbids a body have none, all
others last until the connection closes unless they announce an end. -/
def forResponse (code : Nat) (head : Bool) (h : Headers) : Except BodyError Framing :=
  if head || (100 ≤ code && code < 200) || code == 204 || code == 304 then .ok .empty
  else (announced h).map (·.getD .untilClose)

end Framing

end Hypertext

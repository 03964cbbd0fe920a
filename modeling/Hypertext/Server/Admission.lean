/-
Admission: what the bytes that a peer has sent amount to. At their front is a request, or the beginning of one, or
something that is refused; a request together with its body may not be larger than a limit.
-/
import Hypertext.Message.Request
import Hypertext.Message.Status
import Hypertext.Server.CloseReason

namespace Hypertext

/-- What is at the front of a buffer. -/
inductive Admission
  | wait
  | serve (request : Request) (rest : Bytes)
  | refuse (status : Status) (reason : CloseReason)
  deriving Repr

namespace Admission

def tooLarge : Admission := .refuse .payloadTooLarge .payloadTooLarge

def malformed : Admission := .refuse .badRequest .badRequest

/-- Waits for the rest of a request unless what is there exceeds the limit already. -/
def unfinished (limit : Nat) (buffer : Bytes) : Admission := if limit < buffer.length then tooLarge else .wait

/-- A request whose head has been read, with its body to be taken off the bytes after the head. -/
def ofBody (limit : Nat) (buffer : Bytes) (request : Request) (afterHead : Bytes) (framing : Framing) : Admission :=
  match framing.decode (limit - (buffer.length - afterHead.length)) afterHead with
  | .ok (some (body, rest)) => .serve { request with body } rest
  | .ok none => unfinished limit buffer
  | .error (.tooLarge _) => tooLarge
  | .error _ => malformed

/-- What is at the front of a buffer. A request body cannot last until the connection closes. -/
def ofBuffer (limit : Nat) (buffer : Bytes) : Admission :=
  if buffer.isEmpty then .wait
  else match Request.parse buffer with
    | .error .incomplete => unfinished limit buffer
    | .error (.malformed _) => malformed
    | .ok (request, afterHead) =>
      match request.framing with
      | .error _ | .ok .untilClose => malformed
      | .ok framing => ofBody limit buffer request afterHead framing

end Admission

end Hypertext

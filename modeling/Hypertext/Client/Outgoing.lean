/-
The bytes of a request that a client sends.
-/
import Hypertext.Client.Target
import Hypertext.Config.Client
import Hypertext.Message.Headers
import Hypertext.Message.Method

namespace Hypertext

/-- What a client is asked to send. -/
structure Outgoing where
  method : Method
  url : Url
  target : Target
  headers : Headers
  body : Bytes

namespace Outgoing

/-- Adds a field unless there is one of its name. -/
def addMissing (name value : String) (h : Headers) : Headers := if h.contains name then h else h.add name value

/-- Whether the length of the body is announced: it is for every body that is not empty, and for the methods that
are expected to have one. -/
def announcesLength (method : Method) (body : Bytes) : Bool :=
  !body.isEmpty || [.post, .put, .patch].contains method

/-- The fields that are sent: the caller's own, those that are filled in, and the length of the body, of which only
the client itself can speak. -/
def sentHeaders (userAgent : String) (o : Outgoing) : Headers :=
  let filled := addMissing "Accept-Encoding" "gzip"
    (addMissing "User-Agent" userAgent (addMissing "Host" o.target.authority o.headers))
  let plain := (filled.remove "transfer-encoding").remove "content-length"
  if announcesLength o.method o.body then plain.add "Content-Length" (toString o.body.length) else plain

def requestTarget (u : Url) : String :=
  match u.query with
  | some query => s!"{u.path}?{query}"
  | none => u.path

def encode (userAgent : String) (o : Outgoing) : Bytes :=
  Bytes.ofText s!"{o.method.text} {requestTarget o.url} HTTP/1.1\r\n{(o.sentHeaders userAgent).text}\r\n" ++ o.body

end Outgoing

end Hypertext

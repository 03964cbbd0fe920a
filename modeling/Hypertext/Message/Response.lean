/-
Responses as a handler builds them, and the bytes they become.
-/
import Hypertext.Gzip.Deflate
import Hypertext.Json.Print
import Hypertext.Message.Headers
import Hypertext.Message.Status

namespace Hypertext

/-- A response. -/
structure Response where
  status : Status
  headers : Headers
  body : Bytes
  keepAlive : Bool

namespace Response

/-- A response with neither header fields nor a body. -/
def new (status : Status) : Response := ⟨status, .empty, [], true⟩

instance : Inhabited Response := ⟨new .ok⟩

def withHeader (name value : String) (r : Response) : Response := { r with headers := r.headers.add name value }

def withBody (body : Bytes) (r : Response) : Response := { r with body }

def ofText (body : String) : Response := (new .ok).withBody (Bytes.ofText body)

def ofHtml (body : String) : Response :=
  ((new .ok).withHeader "Content-Type" "text/html; charset=utf-8").withBody (Bytes.ofText body)

def ofJson (value : Json) : Response :=
  ((new .ok).withHeader "Content-Type" "application/json").withBody (Bytes.ofText value.text)

/-! ## Compression -/

/-- Bodies shorter than this are not compressed. -/
def minCompressed : Nat := 32

/-- The response for a peer that may accept gzip: its body is compressed if it is worth it and not coded yet. By which
encoder is left open: any one makes gzip members in its own way, and what is shown of responses is shown for all. -/
def compressed (acceptsGzip : Bool) (r : Response) (encode : Bytes → Bytes := Gzip.gzip) : Response :=
  if !acceptsGzip || r.body.length < minCompressed || r.status.forbidsBody ||
      r.headers.contains "content-encoding" then r
  else
    let packed := encode r.body
    if packed.length < r.body.length then
      { r with body := packed, headers := (r.headers.add "Content-Encoding" "gzip").add "Vary" "Accept-Encoding" }
    else r

/-! ## Writing -/

/-- The body that is sent, if one may be. -/
def sentBody (r : Response) : Bytes := if r.status.forbidsBody then [] else r.body

/-- The fields that are sent before the length: a body has a type, and the connection option is the response's
own. -/
def sentHeaders (r : Response) : Headers :=
  let typed :=
    if r.sentBody.isEmpty || r.headers.contains "content-type" then r.headers
    else r.headers.add "Content-Type" "text/plain; charset=utf-8"
  (typed.remove "content-length").set "Connection" (if r.keepAlive then "keep-alive" else "close")

/-- The lines up to and with the empty line. -/
def head (r : Response) : String :=
  let length := if r.status.forbidsBody then "" else s!"Content-Length: {r.sentBody.length}\r\n"
  s!"HTTP/1.1 {r.status.text}\r\n{r.sentHeaders.text}{length}\r\n"

/-- The bytes of the response; those of the body are left out if only the head is wanted. -/
def encode (headOnly : Bool) (r : Response) : Bytes :=
  Bytes.ofText r.head ++ if headOnly then [] else r.sentBody

end Response

end Hypertext

/-
Responses as a client receives them, and how they are read off a connection: bytes arrive in pieces, and after each
piece the reader either has its response or waits for more.
-/
import Hypertext.Client.Error
import Hypertext.Gzip.Member
import Hypertext.Message.Body
import Hypertext.Message.Coding
import Hypertext.Message.Head
import Hypertext.Json.Parse
import Hypertext.Net.ReadBuffer
import Hypertext.Text.Utf8

namespace Hypertext

structure ClientResponse where
  status : Nat
  version : Version
  headers : Headers
  body : Bytes
  deriving DecidableEq, Repr

namespace ClientResponse

def isSuccess (r : ClientResponse) : Bool := 200 ≤ r.status && r.status < 300

def text (r : ClientResponse) : String := Text.lossy r.body

def json (r : ClientResponse) : Except Json.Error Json := Json.parse r.body

/-- Whether the connection may be used again. -/
def allowsReuse (r : ClientResponse) : Bool :=
  !r.headers.hasToken "connection" "close" &&
    (r.version.keepsAlive || r.headers.hasToken "connection" "keep-alive")

end ClientResponse

/-- A response, and whether the connection it came on can bring no further one. -/
structure Received where
  response : ClientResponse
  spent : Bool
  deriving DecidableEq, Repr

/-- What a reader waits for: the head of the response, or its body. -/
inductive Awaited
  | head
  | body (head : ResponseHead) (headers : Headers) (framing : Framing)

/-- A reader of one response. -/
structure ResponseReader where
  toHead : Bool
  maxBody : Nat
  awaited : Awaited
  buffer : ReadBuffer

/-- A reader after a piece: it waits, or it is done. -/
inductive ReadState
  | waiting (reader : ResponseReader)
  | done (outcome : Except ClientError Received)

namespace ResponseReader

def initialCapacity : Nat := 4096

/-- A head may not be longer than this. -/
def maxHead : Nat := 64 * 1024

/-- A reader at the start of a response; `toHead` says that it answers a HEAD request. -/
def new (toHead : Bool) (maxBody : Nat) : ResponseReader := ⟨toHead, maxBody, .head, .empty initialCapacity⟩

def violation {α : Type} (text : String) : Except ClientError α := .error (.protocolViolation text)

/-- Whether another response follows that counts. -/
def isInterim (code : Nat) : Bool := 100 ≤ code && code < 200 && code != 101

/-- The body without the gzip coding, and the fields that describe it. -/
def decoded (maxBody : Nat) (headers : Headers) (body : Bytes) : Except ClientError (Headers × Bytes) :=
  if Coding.isGzipEncoded headers && !body.isEmpty then
    match Gzip.gunzip body maxBody with
    | .ok content => .ok ((headers.remove "content-encoding").remove "content-length", content)
    | .error e => violation s!"bad gzip body: {e.failure.text}"
  else .ok (headers, body)

def finish (r : ResponseReader) (head : ResponseHead) (headers : Headers) (framing : Framing) (body rest : Bytes) :
    Except ClientError Received := do
  let (headers, body) ← decoded r.maxBody headers body
  return ⟨⟨head.code, head.version, headers, body⟩, framing == .untilClose || !rest.isEmpty⟩

/-- Looks for the body in the buffer. -/
def advanceBody (r : ResponseReader) (head : ResponseHead) (headers : Headers) (framing : Framing) : ReadState :=
  match framing.decode r.maxBody r.buffer.bytes with
  | .error e => .done (violation e.message)
  | .ok none => .waiting { r with awaited := .body head headers framing }
  | .ok (some (body, rest)) => .done (r.finish head headers framing body rest)

/-- Looks for the head in the buffer, passing over interim responses. Each has a head, so there are fewer of them
than bytes. -/
def advanceHead : (steps : Nat) → ResponseReader → ReadState
  | 0, r => .waiting r
  | k + 1, r =>
    if r.buffer.bytes.isEmpty then .waiting r
    else match Head.response r.buffer.bytes with
      | .bad e => .done (violation s!"malformed response head: {e.message}")
      | .more => if maxHead < r.buffer.bytes.length then .done (violation "response head too large") else .waiting r
      | .done head rest =>
        let r := { r with buffer := r.buffer.keep rest }
        if isInterim head.code then advanceHead k r
        else
          let headers := Head.headers head.fields
          match Framing.forResponse head.code r.toHead headers with
          | .error e => .done (violation e.message)
          | .ok framing => r.advanceBody head headers framing

/-- Looks for what is awaited in the buffer. -/
def advance (r : ResponseReader) : ReadState :=
  match r.awaited with
  | .head => advanceHead (r.buffer.bytes.length + 1) r
  | .body head headers framing => r.advanceBody head headers framing

/-- The reader after a piece that its buffer has room for. -/
def feed (piece : Bytes) (r : ResponseReader) : ReadState := advance { r with buffer := r.buffer.append piece }

/-- The outcome when the connection ends here. -/
def close (r : ResponseReader) : Except ClientError Received :=
  match r.awaited with
  | .head => violation "connection closed before a response arrived"
  | .body head headers .untilClose => r.finish head headers .untilClose r.buffer.bytes []
  | .body .. => violation "connection closed before the body was complete"

/-- What comes after the last piece: the end of the connection, a failure, or nothing within a time limit. -/
inductive Ending
  | closed
  | failed (text : String)
  | overdue (limit : Duration)

/-- Reads one piece, in as many reads as the room of the buffer makes necessary. -/
def feedPiece : (steps : Nat) → Bytes → ResponseReader → ReadState
  | 0, _, r => .waiting r
  | k + 1, piece, r =>
    if piece.isEmpty then .waiting r
    else match r.feed (piece.take r.buffer.room) with
      | .done outcome => .done outcome
      | .waiting next => feedPiece k (piece.drop r.buffer.room) next

/-- Reads a response from pieces. -/
def readAll (ending : Ending) : List Bytes → ResponseReader → Except ClientError Received
  | [], r =>
    match ending with
    | .closed => r.close
    | .failed text => .error (.stream text)
    | .overdue limit => .error (.readTimeout limit)
  | piece :: rest, r =>
    match feedPiece piece.length piece r with
    | .done outcome => outcome
    | .waiting next => readAll ending rest next

end ResponseReader

/-- Reads one response from a connection that brings these pieces. -/
def ClientResponse.read (toHead : Bool) (maxBody : Nat) (pieces : List Bytes) (ending : ResponseReader.Ending) :
    Except ClientError Received :=
  (ResponseReader.new toHead maxBody).readAll ending pieces

end Hypertext

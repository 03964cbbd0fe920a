/-
Targets: whom a client connects to.
-/
import Hypertext.Client.Error
import Hypertext.Url.Basic

namespace Hypertext

structure Target where
  scheme : String
  host : String
  port : Nat
  deriving DecidableEq, Repr

namespace Target

/-- The port that is not written. -/
def plainPort : Nat := 80

/-- The target of a URL; only plain HTTP is spoken. -/
def ofUrl (u : Url) : Except ClientError Target :=
  if u.scheme == "http" then .ok ⟨u.scheme, u.host, u.port.getD plainPort⟩ else .error (.unsupportedScheme u.scheme)

/-- The host, with the port unless it is the plain one. -/
def authority (t : Target) : String := if t.port = plainPort then t.host else s!"{t.host}:{t.port}"

def text (t : Target) : String := s!"{t.scheme}://{t.host}:{t.port}"

def parse (text : String) : Except ClientError (Url × Target) := do
  let url ← (Url.parse text).mapError fun e => .invalidUrl text e.message
  return (url, ← ofUrl url)

end Target

end Hypertext

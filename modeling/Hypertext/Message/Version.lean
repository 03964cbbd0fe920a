/-
Protocol versions.
-/

namespace Hypertext

inductive Version
  | http10
  | http11
  deriving DecidableEq, Repr

namespace Version

def text : Version → String
  | .http10 => "HTTP/1.0"
  | .http11 => "HTTP/1.1"

/-- Whether a connection is kept when nothing is said about it. -/
def keepsAlive : Version → Bool
  | .http10 => false
  | .http11 => true

end Version

end Hypertext

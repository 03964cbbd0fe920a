/-
Failures of input and output: a kind, which programs look at, and a text, which people read.
-/

namespace Hypertext

inductive IoKind
  | notFound
  | permissionDenied
  | alreadyExists
  | invalidInput
  | invalidData
  | unexpectedEnd
  | timedOut
  | other
  deriving DecidableEq, Repr

structure IoError where
  kind : IoKind
  text : String
  deriving DecidableEq, Repr

end Hypertext

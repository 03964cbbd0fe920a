/-
Handlers. A handler is a function of what it is given: it says how long it takes and how it ends.
-/
import Hypertext.Handler.Context
import Hypertext.Handler.Error

namespace Hypertext

/-- How a handler ends. A panic may carry a text. -/
inductive Completion
  | response (r : Response)
  | failed (e : HandlerError)
  | panicked (text : Option String)

/-- How long a handler takes, in milliseconds, and how it ends then. -/
structure Reaction where
  delay : Nat
  completion : Completion

abbrev Handler := Context → Reaction

def Handler.immediate (run : Context → Except HandlerError Response) : Handler := fun c =>
  match run c with
  | .ok r => ⟨0, .response r⟩
  | .error e => ⟨0, .failed e⟩

end Hypertext

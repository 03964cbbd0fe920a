/-
Request methods.
-/

namespace Hypertext

/-- A request method; names without a meaning of their own are kept as they are written. -/
inductive Method
  | get
  | post
  | put
  | delete
  | head
  | options
  | patch
  | connect
  | trace
  | custom (name : String)
  deriving DecidableEq, Repr

namespace Method

/-- The name on the wire. -/
def text : Method → String
  | .get => "GET"
  | .post => "POST"
  | .put => "PUT"
  | .delete => "DELETE"
  | .head => "HEAD"
  | .options => "OPTIONS"
  | .patch => "PATCH"
  | .connect => "CONNECT"
  | .trace => "TRACE"
  | .custom name => name

/-- The methods that have a meaning of their own, in order. -/
def known : List Method := [.get, .post, .put, .delete, .head, .options, .patch, .connect, .trace]

/-- The method with this name; letter case counts. -/
def ofText (s : String) : Method := (known.find? (·.text == s)).getD (.custom s)

@[simp]
theorem text_ofText (s : String) : (ofText s).text = s := by
  unfold ofText
  cases h : known.find? (·.text == s) with
  | none => rfl
  | some m => simpa using List.find?_some h

def isCustom : Method → Bool
  | .custom _ => true
  | _ => false

/-- Doing it twice is the same as doing it once. -/
def isIdempotent : Method → Bool
  | .get | .head | .put | .delete | .options | .trace => true
  | _ => false

/-- The known methods come first, in order, then all others by name. -/
def le (a b : Method) : Bool :=
  match a, b with
  | .custom m, .custom n => m ≤ n
  | .custom _, _ => false
  | _, .custom _ => true
  | _, _ => known.idxOf a ≤ known.idxOf b

end Method

end Hypertext

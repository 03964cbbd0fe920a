/-
JSON values. Whole numbers are kept exactly as far as 64 bits reach, every other number is a double; the members
of an object are kept in the order of their names, one per name.
-/

namespace Hypertext

/-- A JSON number: a whole number from 0, one below 0 given by its magnitude, or a double. -/
inductive JsonNumber
  | nonneg (n : Nat)
  | negative (n : Nat)
  | double (x : Float)
  deriving Repr, Inhabited

inductive Json
  | null
  | bool (b : Bool)
  | number (n : JsonNumber)
  | string (s : String)
  | array (items : List Json)
  | object (members : List (String × Json))
  deriving Repr, Inhabited

namespace Json

/-- Puts a member in the place of its name; an earlier member of that name is replaced. -/
def insert (key : String) (value : Json) : List (String × Json) → List (String × Json)
  | [] => [(key, value)]
  | (k, v) :: rest =>
    if key < k then (key, value) :: (k, v) :: rest
    else if key == k then (key, value) :: rest
    else (k, v) :: insert key value rest

/-- The object with these members; of two members of one name the later counts. -/
def ofMembers (members : List (String × Json)) : Json :=
  .object (members.foldl (fun acc m => insert m.1 m.2 acc) [])

def ofNat (n : Nat) : Json := .number (.nonneg n)

/-- The member of an object. -/
def get? (key : String) : Json → Option Json
  | .object members => (members.find? (·.1 == key)).map (·.2)
  | _ => none

def string? : Json → Option String
  | .string s => some s
  | _ => none

def nat? : Json → Option Nat
  | .number (.nonneg n) => some n
  | _ => none

def bool? : Json → Option Bool
  | .bool b => some b
  | _ => none

def items? : Json → Option (List Json)
  | .array xs => some xs
  | _ => none

end Json

end Hypertext

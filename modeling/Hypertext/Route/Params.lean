/-
The values that a path gives to the names in a pattern.
-/

namespace Hypertext

/-- Captured values by name, each name once, in the order in which they were first captured. -/
structure PathParams where
  entries : List (String × String)
  deriving DecidableEq, Repr

namespace PathParams

def empty : PathParams := ⟨[]⟩

instance : Inhabited PathParams := ⟨empty⟩

/-- Puts a value in the place of its name, or at the end if the name is new. -/
def insertEntry (name value : String) : List (String × String) → List (String × String)
  | [] => [(name, value)]
  | (k, v) :: rest => if k == name then (k, value) :: rest else (k, v) :: insertEntry name value rest

def insert (name value : String) (p : PathParams) : PathParams := ⟨insertEntry name value p.entries⟩

def get? (name : String) (p : PathParams) : Option String := (p.entries.find? (·.1 == name)).map (·.2)

def size (p : PathParams) : Nat := p.entries.length

theorem get?_insert_self (name value : String) (p : PathParams) : (p.insert name value).get? name = some value := by
  unfold get? insert
  induction p.entries with
  | nil => simp [insertEntry]
  | cons e rest ih =>
    unfold insertEntry
    split
    · next h => simp [h]
    · next h => simpa [h] using ih

theorem get?_insert_of_ne {name other : String} (value : String) (p : PathParams) (h : other ≠ name) :
    (p.insert name value).get? other = p.get? other := by
  unfold get? insert
  induction p.entries with
  | nil => simp [insertEntry, Ne.symm h]
  | cons e rest ih =>
    unfold insertEntry
    split
    · next he =>
      have he : e.1 = name := by simpa using he
      simp [he, Ne.symm h]
    · simp only [List.find?_cons]
      split
      · rfl
      · exact ih

end PathParams

end Hypertext

/-
Header fields: pairs of a name and a value in the order of their arrival. Names are compared up to letter case,
and a name may occur more than once.
-/
import Hypertext.Text.Ascii
import Hypertext.Text.Blank
import Hypertext.Text.Integer
import Hypertext.Text.Split

namespace Hypertext

/-- The header fields of a message. -/
structure Headers where
  entries : List (String × String)
  deriving DecidableEq, Repr

namespace Headers

def empty : Headers := ⟨[]⟩

instance : Inhabited Headers := ⟨empty⟩

/-- Adds a field after all others. -/
def add (name value : String) (h : Headers) : Headers := ⟨h.entries ++ [(name, value)]⟩

/-- Drops every field of this name. -/
def remove (name : String) (h : Headers) : Headers := ⟨h.entries.filter fun e => !Text.sameName e.1 name⟩

/-- Puts one field in the place of all fields of its name; it comes last. -/
def set (name value : String) (h : Headers) : Headers := (h.remove name).add name value

/-- The values of all fields of this name, in order. -/
def getAll (name : String) (h : Headers) : List String :=
  (h.entries.filter fun e => Text.sameName e.1 name).map (·.2)

/-- The value of the first field of this name. -/
def get? (name : String) (h : Headers) : Option String := (h.getAll name).head?

def contains (name : String) (h : Headers) : Bool := h.entries.any fun e => Text.sameName e.1 name

def size (h : Headers) : Nat := h.entries.length

/-- The elements of a list that is spread over the fields of one name, blanks around them dropped. -/
def elements (name : String) (h : Headers) : List String :=
  (h.getAll name).flatMap fun v => (Text.split ',' v).map Text.trim

/-- Whether a token is among the elements of a list field, in any letter case. -/
def hasToken (name token : String) (h : Headers) : Bool := (h.elements name).any (Text.sameName · token)

/-- Reads a length: digits only, blanks around them dropped, at most 64 bits. -/
def length? (value : String) : Option Nat :=
  let v := Text.trim value
  if v.toList.all Text.isDigit then (Text.readNat Text.maxWord v).toOption else none

/-- The length that the first Content-Length field announces. -/
def contentLength? (h : Headers) : Option Nat := (h.get? "content-length").bind length?

/-- One line per field. -/
def text (h : Headers) : String := String.join (h.entries.map fun e => s!"{e.1}: {e.2}\r\n")

/-! ## Laws -/

theorem getAll_add (n m v : String) (h : Headers) :
    (h.add m v).getAll n = h.getAll n ++ if Text.sameName m n then [v] else [] := by
  unfold getAll add
  by_cases e : Text.sameName m n = true <;> simp [List.filter_append, e]

theorem getAll_remove_self (n : String) (h : Headers) : (h.remove n).getAll n = [] := by
  simp [getAll, remove, List.filter_filter]

theorem contains_eq_false_iff {n : String} {h : Headers} : h.contains n = false ↔ h.getAll n = [] := by
  simp [contains, getAll, List.filter_eq_nil_iff]

theorem getAll_set_self (n v : String) (h : Headers) : (h.set n v).getAll n = [v] := by
  simp [set, getAll_add, getAll_remove_self]

end Headers

end Hypertext

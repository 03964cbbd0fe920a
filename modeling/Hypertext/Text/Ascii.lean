/-
Comparison of names that ignores ASCII letter case, as field names, coding names and connection options need.
-/

namespace Hypertext.Text

/-- The text with its ASCII capitals made small; every other character stays. -/
def lower (s : String) : String := String.ofList (s.toList.map Char.toLower)

/-- Equality of names up to ASCII letter case. -/
def sameName (a b : String) : Bool := a.toList.map Char.toLower == b.toList.map Char.toLower

theorem sameName_iff {a b : String} :
    sameName a b = true ↔ a.toList.map Char.toLower = b.toList.map Char.toLower := by
  simp [sameName]

@[simp]
theorem sameName_refl (a : String) : sameName a a = true := by simp [sameName]

theorem sameName_comm (a b : String) : sameName a b = sameName b a := by
  rw [Bool.eq_iff_iff, sameName_iff, sameName_iff]
  exact eq_comm

/-- ASCII decimal digits only. -/
def isDigit (c : Char) : Bool := '0' ≤ c && c ≤ '9'

end Hypertext.Text

/-
Cutting text at a separator. `split` cuts at every occurrence, `cut?` at the first one.
-/

namespace Hypertext.Text

/-- The pieces between the occurrences of a separator; there is always at least one. -/
def split (c : Char) (s : String) : List String := (s.toList.splitOn c).map String.ofList

theorem not_mem_of_mem_splitOn {α : Type} [BEq α] [LawfulBEq α] {a : α} :
    ∀ {xs piece : List α}, piece ∈ xs.splitOn a → a ∉ piece
  | [], piece, h => by simp_all
  | x :: xs, piece, h => by
    rw [List.splitOn_cons_eq_if_modifyHead] at h
    split at h
    · rcases List.mem_cons.1 h with rfl | h
      · exact List.not_mem_nil
      · exact not_mem_of_mem_splitOn h
    · next hx =>
      -- the first piece grows by a character, the others stay
      cases hs : xs.splitOn a with
      | nil => exact absurd hs (List.splitOn_ne_nil a xs)
      | cons first others =>
        have hpieces : ∀ p ∈ first :: others, a ∉ p := by
          rw [← hs]
          exact fun p hp => not_mem_of_mem_splitOn hp
        rw [hs, List.modifyHead_cons] at h
        rcases List.mem_cons.1 h with rfl | h
        · rw [List.mem_cons, not_or]
          exact ⟨fun he => hx (beq_iff_eq.2 he.symm), hpieces first List.mem_cons_self⟩
        · exact hpieces piece (List.mem_cons_of_mem _ h)

theorem not_mem_of_mem_split {c : Char} {s piece : String} (h : piece ∈ split c s) : c ∉ piece.toList := by
  obtain ⟨cs, hcs, rfl⟩ := List.mem_map.1 h
  rw [String.toList_ofList]
  exact not_mem_of_mem_splitOn hcs

theorem split_append (c : Char) (s t : String) :
    split c (s ++ String.singleton c ++ t) = split c s ++ split c t := by
  unfold split
  rw [String.toList_append, String.toList_append, String.toList_singleton, List.append_assoc, List.singleton_append,
    List.splitOn_append_cons_self, List.map_append]

/-- What stands before and after the first occurrence of a separator. -/
def cutList? {α : Type} [BEq α] (c : α) : List α → Option (List α × List α)
  | [] => none
  | x :: rest => if x == c then some ([], rest) else (cutList? c rest).map fun p => (x :: p.1, p.2)

theorem eq_of_cutList? {α : Type} [BEq α] [LawfulBEq α] {c : α} :
    ∀ {xs : List α} {p : List α × List α}, cutList? c xs = some p → xs = p.1 ++ c :: p.2
  | [], _, h => by simp [cutList?] at h
  | x :: rest, p, h => by
    unfold cutList? at h
    split at h
    · next hx => cases h; simp [eq_of_beq hx]
    · obtain ⟨q, hq, rfl⟩ := Option.map_eq_some_iff.1 h
      simp [eq_of_cutList? hq]

/-- The text before and after the first occurrence of a separator. -/
def cut? (c : Char) (s : String) : Option (String × String) :=
  (cutList? c s.toList).map fun p => (String.ofList p.1, String.ofList p.2)

/-- Every occurrence of one character becomes another. -/
def replace (a b : Char) (s : String) : String := String.ofList (s.toList.map fun c => if c == a then b else c)

def join (sep : String) (xs : List String) : String := sep.intercalate xs

/-- Texts without the separator are the pieces of what they are joined to. -/
theorem split_join {c : Char} {texts : List String} (h : ∀ t ∈ texts, c ∉ t.toList) (hne : texts ≠ []) :
    split c (join (String.singleton c) texts) = texts := by
  have hlists : ∀ cs ∈ texts.map String.toList, c ∉ cs := by
    intro cs hcs
    obtain ⟨t, ht, rfl⟩ := List.mem_map.1 hcs
    exact h t ht
  rw [split, join, String.toList_intercalate, String.toList_singleton,
    List.splitOn_intercalate c hlists (by simpa using hne), List.map_map]
  exact (List.map_congr_left fun t _ => String.ofList_toList).trans (List.map_id texts)

/-- What follows a leading text, if the string starts with it. -/
def dropPrefix? (lead s : String) : Option String :=
  if lead.toList.isPrefixOf s.toList then some (String.ofList (s.toList.drop lead.toList.length)) else none

end Hypertext.Text

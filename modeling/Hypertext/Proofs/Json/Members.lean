/-
The members of an object: they stand in the order of their names, one for each name, and what is put in under a name is
what is found under it.
-/
import Hypertext.Json.Basic
import Mathlib.Data.String.Basic

namespace Hypertext.Json

variable {key other : String} {value : Json} {members : List (String × Json)}

/-! ## Lookup -/

theorem get?_cons (k : String) (v : Json) (members : List (String × Json)) :
    (object ((k, v) :: members)).get? key = if k = key then some v else (object members).get? key := by
  by_cases h : k = key <;> simp [get?, h]

theorem get?_insert_self (key : String) (value : Json) (members : List (String × Json)) :
    (object (insert key value members)).get? key = some value := by
  induction members with
  | nil => simp [insert, get?]
  | cons m members ih =>
    unfold insert
    split_ifs with hlt heq
    · rw [get?_cons, if_pos rfl]
    · rw [get?_cons, if_pos rfl]
    · rw [get?_cons, if_neg fun h => heq (by simp [h]), ih]

theorem get?_insert_of_ne (value : Json) (members : List (String × Json)) (h : other ≠ key) :
    (object (insert key value members)).get? other = (object members).get? other := by
  induction members with
  | nil => simp [insert, get?, h.symm]
  | cons m members ih =>
    obtain ⟨k, v⟩ := m
    unfold insert
    split_ifs with hlt heq
    · rw [get?_cons, if_neg h.symm]
    · obtain rfl : key = k := by simpa using heq
      rw [get?_cons, get?_cons, if_neg h.symm, if_neg h.symm]
    · rw [get?_cons, get?_cons, ih]

/-- What is found in an object is the last member of that name. -/
theorem get?_ofMembers (key : String) (members : List (String × Json)) :
    (ofMembers members).get? key = (members.reverse.find? (·.1 == key)).map (·.2) := by
  suffices h : ∀ acc : List (String × Json), (object (members.foldl (fun acc m => insert m.1 m.2 acc) acc)).get? key =
      ((members.reverse.find? (·.1 == key)).map (·.2)).or ((object acc).get? key) by
    rw [ofMembers, h, get?, List.find?_nil, Option.map_none, Option.or_none]
  induction members with
  | nil => exact fun acc => rfl
  | cons m members ih =>
    intro acc
    rw [List.foldl_cons, ih, List.reverse_cons, List.find?_append]
    cases members.reverse.find? (·.1 == key) with
    | some found => rfl
    | none =>
      by_cases hm : m.1 = key
      · simp [hm, get?_insert_self]
      · simp [hm, get?_insert_of_ne _ _ (Ne.symm hm)]

/-! ## Order -/

/-- Names increase from one member to the next. -/
def Ordered (members : List (String × Json)) : Prop := members.Pairwise fun m m' => m.1 < m'.1

theorem mem_insert {m : String × Json} (h : m ∈ insert key value members) : m = (key, value) ∨ m ∈ members := by
  induction members with
  | nil => exact .inl (List.mem_singleton.1 h)
  | cons first members ih =>
    unfold insert at h
    split_ifs at h with hlt heq
    · exact List.mem_cons.1 h
    · exact (List.mem_cons.1 h).imp_right (List.mem_cons_of_mem _)
    · rcases List.mem_cons.1 h with rfl | h
      · exact .inr List.mem_cons_self
      · exact (ih h).imp_right (List.mem_cons_of_mem _)

theorem Ordered.insert (h : Ordered members) (key : String) (value : Json) : Ordered (insert key value members) := by
  induction members with
  | nil => exact List.pairwise_singleton _ _
  | cons first members ih =>
    obtain ⟨hfirst, hmembers⟩ := List.pairwise_cons.1 h
    unfold Json.insert
    split_ifs with hlt heq
    · refine List.pairwise_cons.2 ⟨fun m hm => ?_, h⟩
      rcases List.mem_cons.1 hm with rfl | hm
      · exact hlt
      · exact lt_trans hlt (hfirst m hm)
    · obtain rfl : key = first.1 := by simpa using heq
      exact List.pairwise_cons.2 ⟨hfirst, hmembers⟩
    · refine List.pairwise_cons.2 ⟨fun m hm => ?_, ih hmembers⟩
      rcases mem_insert hm with rfl | hm
      · exact lt_of_le_of_ne (not_lt.1 hlt) fun h => heq (beq_iff_eq.2 h.symm)
      · exact hfirst m hm

/-- The members of an object are what is found in it. -/
theorem Ordered.mem_iff (h : Ordered members) : (key, value) ∈ members ↔ (object members).get? key = some value := by
  induction members with
  | nil => simp [get?]
  | cons first members ih =>
    obtain ⟨k, v⟩ := first
    obtain ⟨hfirst, hmembers⟩ := List.pairwise_cons.1 h
    rw [get?_cons, List.mem_cons]
    split_ifs with hk
    · subst hk
      have hnew : (k, value) ∉ members := fun hm => lt_irrefl k (hfirst (k, value) hm)
      simp [hnew, eq_comm]
    · rw [← ih hmembers, or_iff_right fun heq => hk (congrArg Prod.fst heq).symm]

end Hypertext.Json

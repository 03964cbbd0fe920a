/-
Queries as they are written and read. Names and values are written with a plus sign for every space, a name and its value
are joined by an equals sign, and pairs by ampersands. Whatever is written so is read back pair by pair, and of several
pairs with one name the last one counts.
-/
import Hypertext.Proofs.Message.RequestHead

namespace Hypertext

namespace Text

variable {a b c : Char} {s : String}

theorem toList_replace : (replace a b s).toList = s.toList.map fun c => if c == a then b else c := by
  rw [replace, String.toList_ofList]

/-- What is replaced can be put back if the text did not have its substitute. -/
theorem replace_replace (h : b ∉ s.toList) : replace b a (replace a b s) = s := by
  have hback : ∀ c ∈ s.toList, (if (if c == a then b else c) == b then a else if c == a then b else c) = c := by
    intro c hc
    by_cases ha : c = a
    · simp [ha]
    · have hb : c ≠ b := fun hb => h (hb ▸ hc)
      simp [ha, hb]
  have hchars : (replace b a (replace a b s)).toList = s.toList := by
    rw [toList_replace, toList_replace, List.map_map]
    exact (List.map_congr_left hback).trans (List.map_id' _)
  exact String.toList_inj.1 hchars

theorem not_mem_replace (h : c ∉ s.toList) (hc : c ≠ b) : c ∉ (replace a b s).toList := by
  rw [toList_replace]
  intro hmem
  obtain ⟨x, hx, hxc⟩ := List.mem_map.1 hmem
  split at hxc
  · exact hc hxc.symm
  · exact h (hxc ▸ hx)

@[simp]
theorem replace_eq_empty_iff : replace a b s = "" ↔ s = "" := by
  rw [← String.toList_inj, ← String.toList_inj, toList_replace]
  exact List.map_eq_nil_iff

theorem cut?_append {before : String} (h : c ∉ before.toList) (after : String) :
    cut? c (before ++ String.singleton c ++ after) = some (before, after) := by
  have hchars : (before ++ String.singleton c ++ after).toList = before.toList ++ c :: after.toList := by simp
  rw [cut?, hchars, cutList?_append fun x hx => ne_of_mem_of_not_mem hx h]
  simp

theorem cut?_eq_none (h : c ∉ s.toList) : cut? c s = none := by
  rw [cut?, cutList?_eq_none fun x hx => ne_of_mem_of_not_mem hx h]
  rfl

end Text

namespace Query

/-! ## Writing -/

/-- A name and a value that a query can hold. -/
structure IsPair (p : String × String) : Prop where
  name : '&' ∉ p.1.toList ∧ '+' ∉ p.1.toList ∧ '=' ∉ p.1.toList
  value : '&' ∉ p.2.toList ∧ '+' ∉ p.2.toList
  nonempty : ¬(p.1 = "" ∧ p.2 = "")

instance (p : String × String) : Decidable (IsPair p) :=
  decidable_of_iff (('&' ∉ p.1.toList ∧ '+' ∉ p.1.toList ∧ '=' ∉ p.1.toList) ∧
    ('&' ∉ p.2.toList ∧ '+' ∉ p.2.toList) ∧ ¬(p.1 = "" ∧ p.2 = ""))
    ⟨fun ⟨hname, hvalue, hne⟩ => ⟨hname, hvalue, hne⟩, fun ⟨hname, hvalue, hne⟩ => ⟨hname, hvalue, hne⟩⟩

/-- A text as it stands in a query. -/
def written (s : String) : String := Text.replace ' ' '+' s

/-- A name and a value as they stand in a query. -/
def pieceOf (p : String × String) : String := written p.1 ++ "=" ++ written p.2

/-- The query that pieces make up. -/
def ofPieces (pieces : List String) : String := Text.join "&" pieces

/-- Pieces that write pairs, in order. The equals sign may be left out before an empty value, and pieces with nothing in
them may stand anywhere. -/
inductive Writes : List String → List (String × String) → Prop
  | nil : Writes [] []
  | pair {pieces : List String} {pairs : List (String × String)} (p : String × String) (others : Writes pieces pairs) :
      Writes (pieceOf p :: pieces) (p :: pairs)
  | bare {pieces : List String} {pairs : List (String × String)} (name : String) (others : Writes pieces pairs) :
      Writes (written name :: pieces) ((name, "") :: pairs)
  | gap {pieces : List String} {pairs : List (String × String)} (others : Writes pieces pairs) :
      Writes ("" :: pieces) pairs

variable {path : String} {pieces : List String} {pairs : List (String × String)} {p : String × String}

theorem writes_map (pairs : List (String × String)) : Writes (pairs.map pieceOf) pairs := by
  induction pairs with
  | nil => exact .nil
  | cons p others ih => exact .pair p ih

/-! ## Reading -/

theorem replace_written {s : String} (h : '+' ∉ s.toList) : Text.replace '+' ' ' (written s) = s :=
  Text.replace_replace h

/-- The ampersand is not in any piece. -/
theorem Writes.unbroken (h : Writes pieces pairs) (hpairs : ∀ p ∈ pairs, IsPair p) :
    ∀ piece ∈ pieces, '&' ∉ piece.toList := by
  induction h with
  | nil => nofun
  | pair p others ih =>
    obtain ⟨hp, hothers⟩ := List.forall_mem_cons.1 hpairs
    refine List.forall_mem_cons.2 ⟨?_, ih hothers⟩
    have hname : '&' ∉ (written p.1).toList := Text.not_mem_replace hp.name.1 (by decide)
    have hvalue : '&' ∉ (written p.2).toList := Text.not_mem_replace hp.value.1 (by decide)
    simp [pieceOf, hname, hvalue]
  | bare name others ih =>
    obtain ⟨hp, hothers⟩ := List.forall_mem_cons.1 hpairs
    exact List.forall_mem_cons.2 ⟨Text.not_mem_replace hp.name.1 (by decide), ih hothers⟩
  | gap others ih => exact List.forall_mem_cons.2 ⟨by simp, ih hpairs⟩

theorem pieceOf_ne_empty (p : String × String) : pieceOf p ≠ "" := by
  rw [Ne, ← String.toList_inj, pieceOf, String.toList_append, String.toList_append]
  exact List.append_ne_nil_of_left_ne_nil (List.append_ne_nil_of_right_ne_nil _ (by decide)) _

theorem queryPair_pieceOf (hp : IsPair p) : Request.queryPair (pieceOf p) = p := by
  have hcut : Text.cut? '=' (pieceOf p) = some (written p.1, written p.2) :=
    Text.cut?_append (Text.not_mem_replace hp.name.2.2 (by decide)) _
  rw [Request.queryPair, hcut]
  show (Text.replace '+' ' ' (written p.1), Text.replace '+' ' ' (written p.2)) = p
  rw [replace_written hp.name.2.1, replace_written hp.value.2]

theorem queryPair_written {name : String} (hp : IsPair (name, "")) : Request.queryPair (written name) = (name, "") := by
  have hcut : Text.cut? '=' (written name) = none := Text.cut?_eq_none (Text.not_mem_replace hp.name.2.2 (by decide))
  rw [Request.queryPair, hcut]
  show (Text.replace '+' ' ' (written name), Text.replace '+' ' ' "") = _
  rw [replace_written hp.name.2.1]
  rfl

/-- A query is cut into the pieces that it was made of, but for those with nothing in them. -/
theorem filter_split_ofPieces (h : ∀ piece ∈ pieces, '&' ∉ piece.toList) :
    (Text.split '&' (ofPieces pieces)).filter (· != "") = pieces.filter (· != "") := by
  cases pieces with
  | nil => rfl
  | cons piece others =>
    have hsplit : Text.split '&' (ofPieces (piece :: others)) = piece :: others :=
      Text.split_join h (List.cons_ne_nil _ _)
    rw [hsplit]

/-- What is written is read. -/
theorem Writes.queryPairs (h : Writes pieces pairs) (hpairs : ∀ p ∈ pairs, IsPair p) :
    Request.queryPairs (ofPieces pieces) = pairs := by
  rw [Request.queryPairs, filter_split_ofPieces (h.unbroken hpairs)]
  induction h with
  | nil => rfl
  | pair p others ih =>
    obtain ⟨hp, hothers⟩ := List.forall_mem_cons.1 hpairs
    rw [List.filter_cons_of_pos (p := (· != "")) (bne_iff_ne.2 (pieceOf_ne_empty p)), List.map_cons, queryPair_pieceOf hp, ih hothers]
  | bare name others ih =>
    obtain ⟨hp, hothers⟩ := List.forall_mem_cons.1 hpairs
    -- a name without a value is not empty, so its piece is not passed over
    have hname : name ≠ "" := fun hname => hp.nonempty ⟨hname, rfl⟩
    have hne : written name ≠ "" := mt Text.replace_eq_empty_iff.1 hname
    rw [List.filter_cons_of_pos (p := (· != "")) (bne_iff_ne.2 hne), List.map_cons, queryPair_written hp, ih hothers]
  | gap others ih => exact ih hpairs

/-! ## Looking up -/

/-- A value is that of a name if it stands with the last occurrence of the name. -/
theorem queryParam?_eq_some_iff {r : Request} {key value : String} :
    r.queryParam? key = some value ↔
      ∃ before after, r.parameters = before ++ (key, value) :: after ∧ ∀ p ∈ after, p.1 ≠ key := by
  rw [Request.queryParam?, Option.map_eq_some_iff]
  constructor
  · rintro ⟨⟨name, value⟩, hfind, rfl⟩
    obtain ⟨hname, after, before, hsplit, hafter⟩ := List.find?_eq_some_iff_append.1 hfind
    obtain rfl : name = key := eq_of_beq hname
    refine ⟨before.reverse, after.reverse, ?_, ?_⟩
    · rw [← List.reverse_reverse r.parameters, hsplit]
      simp
    · intro p hp
      simpa using hafter p (List.mem_reverse.1 hp)
  · rintro ⟨before, after, hsplit, hafter⟩
    refine ⟨(key, value), List.find?_eq_some_iff_append.2 ⟨beq_self_eq_true key, after.reverse, before.reverse, ?_, ?_⟩, rfl⟩
    · rw [hsplit]
      simp
    · intro p hp
      simpa using hafter p (List.mem_reverse.1 hp)

theorem queryParam?_eq_none_iff {r : Request} {key : String} :
    r.queryParam? key = none ↔ ∀ p ∈ r.parameters, p.1 ≠ key := by
  simp [Request.queryParam?]

/-- A request for a path with a query has that path and that query, and its parameters are the pairs that the query
writes. -/
theorem Writes.request (h : Writes pieces pairs) (hpairs : ∀ p ∈ pairs, IsPair p) (hpath : '?' ∉ path.toList)
    (method : Method) :
    let r := Request.new method (path ++ "?" ++ ofPieces pieces)
    r.path = path ∧ r.query = some (ofPieces pieces) ∧ r.parameters = pairs := by
  have hsplit := Request.splitTarget_query (fun c hc => ne_of_mem_of_not_mem hc hpath) (ofPieces pieces)
  refine ⟨congrArg Prod.fst hsplit, congrArg Prod.snd hsplit, ?_⟩
  have hquery : (Request.new method (path ++ "?" ++ ofPieces pieces)).query = some (ofPieces pieces) :=
    congrArg Prod.snd hsplit
  rw [Request.parameters, hquery]
  exact h.queryPairs hpairs

/-- Pairs that are written into the query of a target are read from it: the request has the path and the query, each name
has the value of the last pair that has it, and names in no pair have none. The same is read when pieces with nothing in
them are put in, and when the equals sign before an empty value is left out. -/
theorem queryParam_of_written (hpath : '?' ∉ path.toList) (hpairs : ∀ p ∈ pairs, IsPair p) (method : Method) :
    let query := ofPieces (pairs.map pieceOf)
    let r := Request.new method (path ++ "?" ++ query)
    r.path = path ∧ r.query = some query ∧
      (∀ key value, r.queryParam? key = some value ↔
        ∃ before after, pairs = before ++ (key, value) :: after ∧ ∀ p ∈ after, p.1 ≠ key) ∧
      (∀ key, r.queryParam? key = none ↔ ∀ p ∈ pairs, p.1 ≠ key) ∧
      ∀ pieces, Writes pieces pairs → ∀ key,
        (Request.new method (path ++ "?" ++ ofPieces pieces)).queryParam? key = r.queryParam? key := by
  intro query r
  obtain ⟨hrpath, hrquery, hparameters⟩ : r.path = path ∧ r.query = some query ∧ r.parameters = pairs :=
    (writes_map pairs).request hpairs hpath method
  refine ⟨hrpath, hrquery, fun key value => ?_, fun key => ?_, fun pieces hpieces key => ?_⟩
  · rw [queryParam?_eq_some_iff, hparameters]
  · rw [queryParam?_eq_none_iff, hparameters]
  · obtain ⟨-, -, hvariant⟩ := hpieces.request hpairs hpath method
    rw [Request.queryParam?, Request.queryParam?, hparameters, hvariant]

/-- A name that comes twice, a value with an equals sign and a question mark in it, and a name without a value. -/
theorem queryParam_of_search :
    let pairs := [("q", "a b"), ("x", "=?"), ("flag", ""), ("q", "c")]
    let r := Request.new .get "/search?q=a+b&x==?&flag=&q=c"
    r.path = "/search" ∧ r.queryParam? "q" = some "c" ∧ r.queryParam? "x" = some "=?" ∧ r.queryParam? "z" = none ∧
      (∀ p ∈ pairs, IsPair p) ∧ Writes ["q=a+b", "", "x==?", "flag", "q=c", ""] pairs ∧
      ∀ key, (Request.new .get "/search?q=a+b&&x==?&flag&q=c&").queryParam? key = r.queryParam? key := by
  intro pairs r
  have hpairs : ∀ p ∈ pairs, IsPair p := by decide
  have hpieces : Writes ["q=a+b", "", "x==?", "flag", "q=c", ""] pairs :=
    .pair ("q", "a b") (.gap (.pair ("x", "=?") (.bare "flag" (.pair ("q", "c") (.gap .nil)))))
  have htarget : "/search" ++ "?" ++ ofPieces (pairs.map pieceOf) = "/search?q=a+b&x==?&flag=&q=c" := by decide
  have hother : "/search" ++ "?" ++ ofPieces ["q=a+b", "", "x==?", "flag", "q=c", ""] =
      "/search?q=a+b&&x==?&flag&q=c&" := by decide
  have hread := queryParam_of_written (show '?' ∉ "/search".toList by decide) hpairs .get
  simp only [htarget] at hread
  obtain ⟨hpath, -, hsome, hnone, hsame⟩ := hread
  refine ⟨hpath, (hsome "q" "c").2 ⟨[("q", "a b"), ("x", "=?"), ("flag", "")], [], rfl, nofun⟩,
    (hsome "x" "=?").2 ⟨[("q", "a b")], [("flag", ""), ("q", "c")], rfl, by decide⟩, (hnone "z").2 (by decide), hpairs,
    hpieces, ?_⟩
  rw [← hother]
  exact hsame _ hpieces

end Query

end Hypertext

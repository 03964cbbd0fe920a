/-
Reachability: which routes of a table some path leads to. Registration compares routes in pairs, and no route that it
accepts hides another one by itself. Several of them can: a route that ends with a wildcard is never found if there are
routes for each short rest of the path and one for all longer rests. That is the only way to hide a route.
-/
import Hypertext.Proofs.Route.FileRoute
import Mathlib.Data.Fintype.EquivFin
import Mathlib.Data.List.Forall2

namespace Hypertext

/-! ## Segments of the same shape -/

namespace Segment

/-- Segments of the same kinds, with the same literals. Only the names of their captures differ. -/
def Alike : List Segment → List Segment → Prop := List.Forall₂ fun s s' => s.sameShape s' = true

/-- The text of a literal. -/
def text? : Segment → Option String
  | .literal text => some text
  | _ => none

/-- That many captures. -/
def captures (count : Nat) : List Segment := List.replicate count (.capture "")

theorem rank_eq_of_sameShape {s s' : Segment} (h : s.sameShape s' = true) : s.rank = s'.rank := by
  cases s <;> cases s' <;> first | rfl | cases h

theorem Outranks.rank_le {s s' : Segment} {segments segments' : List Segment}
    (h : Outranks (s :: segments) (s' :: segments')) : s.rank ≤ s'.rank := by
  cases h with
  | lower h => exact Nat.le_of_lt h
  | same h _ => exact Nat.le_of_eq h

theorem Outranks.later {s s' : Segment} {segments segments' : List Segment}
    (h : Outranks (s :: segments) (s' :: segments')) (hrank : s.rank = s'.rank) : Outranks segments segments' := by
  cases h with
  | lower h => exact absurd hrank (Nat.ne_of_lt h)
  | same _ later => exact later

/-- Segments that begin alike are compared by what follows. -/
theorem Alike.outranks_append {front front' : List Segment} (h : Alike front' front) {tail tail' : List Segment}
    (ht : Outranks tail tail') : Outranks (front' ++ tail) (front ++ tail') := by
  induction h with
  | nil => exact ht
  | cons hs _ ih => exact .same (rank_eq_of_sameShape hs) ih

theorem Alike.of_append {segments front tail : List Segment} (h : Alike segments (front ++ tail)) :
    ∃ front' tail', segments = front' ++ tail' ∧ Alike front' front ∧ Alike tail' tail :=
  ⟨segments.take front.length, segments.drop front.length, (List.take_append_drop _ _).symm,
    List.forall₂_take_append _ _ _ h, List.forall₂_drop_append _ _ _ h⟩

/-- Captures, and whatever follows them, are preferred to a wildcard. -/
theorem Alike.outranks_wildcard {tail more : List Segment} {count : Nat} {name : String}
    (h : Alike tail (captures count ++ more)) (hmore : count = 0 → more = []) : Outranks tail [.wildcard name] := by
  cases count with
  | zero =>
    rw [hmore rfl] at h
    cases h
    exact .ended
  | succ count =>
    rw [captures, List.replicate_succ, List.cons_append] at h
    cases h with
    | cons hs _ => exact .lower (by rw [rank_eq_of_sameShape hs]; exact Nat.one_lt_two)

end Segment

/-! ## Matching -/

namespace Pattern

open Segment

variable {path : List String} {params found : PathParams}

/-- Captures match as many parts. -/
theorem matchSegments_captures {count : Nat} :
    ∀ {tail : List Segment} {path : List String} {params : PathParams}, Alike tail (captures count) →
      path.length = count → (matchSegments tail path params).isSome := by
  induction count with
  | zero =>
    intro tail path params h hlength
    cases h
    rw [List.length_eq_zero_iff.1 hlength]
    rfl
  | succ count ih =>
    intro tail path params h hlength
    obtain ⟨part, rest, rfl⟩ := List.exists_cons_of_length_eq_add_one hlength
    rw [captures, List.replicate_succ] at h
    obtain ⟨s, tail', hs, htail, rfl⟩ := List.forall₂_cons_right_iff.1 h
    cases s with
    | capture name =>
      rw [matchSegments]
      exact ih htail (Nat.succ.inj hlength)
    | _ => cases hs

/-- Captures with a wildcard after them match as many parts and all longer paths. -/
theorem matchSegments_captures_wildcard {count : Nat} :
    ∀ {tail : List Segment} {path : List String} {params : PathParams}, Alike tail (captures count ++ [.wildcard ""]) →
      count ≤ path.length → (matchSegments tail path params).isSome := by
  induction count with
  | zero =>
    intro tail path params h _
    obtain ⟨s, tail', hs, -, rfl⟩ := List.forall₂_cons_right_iff.1 h
    cases s with
    | wildcard name => cases path <;> rfl
    | _ => cases hs
  | succ count ih =>
    intro tail path params h hlength
    obtain ⟨part, rest, rfl⟩ := List.exists_cons_of_length_pos (Nat.lt_of_lt_of_le count.succ_pos hlength)
    rw [captures, List.replicate_succ] at h
    obtain ⟨s, tail', hs, htail, rfl⟩ := List.forall₂_cons_right_iff.1 h
    cases s with
    | capture name =>
      rw [matchSegments]
      exact ih htail (Nat.le_of_succ_le_succ hlength)
    | _ => cases hs

/-- A path that segments with a wildcard match has a rest for the wildcard; whatever else matches the rest matches the
path after segments that are alike. -/
theorem exists_rest_of_match {name : String} :
    ∀ {front : List Segment} {path : List String} {params found : PathParams},
      matchSegments (front ++ [.wildcard name]) path params = some found → WildcardLast (front ++ [.wildcard name]) →
      ∃ rest : List String, ∀ front' tail : List Segment, Alike front' front →
        (∀ params, (matchSegments tail rest params).isSome) → ∀ params, (matchSegments (front' ++ tail) path params).isSome
  | [], path, _, _, _, _ => ⟨path, fun front' tail halike htail params => by cases halike; exact htail params⟩
  | s :: front, [], _, _, h, hw => by
    cases s with
    | wildcard name' => exact absurd (hw.1 rfl) (by simp)
    | _ => cases h
  | s :: front, part :: path, params, found, h, hw => by
    cases s with
    | wildcard name' => exact absurd (hw.1 rfl) (by simp)
    | capture name' =>
      rw [List.cons_append, matchSegments] at h
      obtain ⟨rest, hrest⟩ := exists_rest_of_match h hw.2
      refine ⟨rest, fun front' tail halike htail params' => ?_⟩
      obtain ⟨s', later, hs, hlater, rfl⟩ := List.forall₂_cons_right_iff.1 halike
      cases s' with
      | capture name'' =>
        rw [List.cons_append, matchSegments]
        exact hrest later tail hlater htail _
      | _ => cases hs
    | literal text =>
      simp only [List.cons_append, matchSegments, beq_iff_eq] at h
      split_ifs at h with hpart
      obtain ⟨rest, hrest⟩ := exists_rest_of_match h hw.2
      refine ⟨rest, fun front' tail halike htail params' => ?_⟩
      obtain ⟨s', later, hs, hlater, rfl⟩ := List.forall₂_cons_right_iff.1 halike
      cases s' with
      | literal text' =>
        have htext : part = text' := hpart.trans (beq_iff_eq.1 hs).symm
        simp only [List.cons_append, matchSegments, htext, BEq.rfl, if_true]
        exact hrest later tail hlater htail _
      | _ => cases hs

/-! ## A path for a pattern -/

/-- A path that segments match: one text stands for each capture, and `count` times for a wildcard. -/
def fillIn (filler : String) (count : Nat) : List Segment → List String
  | [] => []
  | .literal text :: segments => text :: fillIn filler count segments
  | .capture _ :: segments => filler :: fillIn filler count segments
  | .wildcard _ :: _ => List.replicate count filler

variable {filler : String} {count : Nat}

theorem matchSegments_fillIn :
    ∀ (segments : List Segment) (params : PathParams), (matchSegments segments (fillIn filler count segments) params).isSome
  | [], _ => rfl
  | .literal text :: segments, params => by
    simp only [fillIn, matchSegments, BEq.rfl, if_true]
    exact matchSegments_fillIn segments params
  | .capture name :: segments, params => matchSegments_fillIn segments _
  | .wildcard name :: segments, params => by
    rw [fillIn]
    cases List.replicate count filler <;> rfl

theorem mem_fillIn {part : String} :
    ∀ {segments : List Segment}, part ∈ fillIn filler count segments → part = filler ∨ .literal part ∈ segments
  | .literal text :: segments, h => by
    rcases List.mem_cons.1 h with rfl | h
    · exact .inr List.mem_cons_self
    · exact (mem_fillIn h).imp_right (List.mem_cons_of_mem _)
  | .capture name :: segments, h => by
    rcases List.mem_cons.1 h with rfl | h
    · exact .inl rfl
    · exact (mem_fillIn h).imp_right (List.mem_cons_of_mem _)
  | .wildcard name :: segments, h => .inl (List.eq_of_mem_replicate h)

/-- What matches `count` times a text that is none of its literals has captures for them, or a wildcard for some. -/
theorem alike_of_match_replicate :
    ∀ {count : Nat} {segments : List Segment} {params found : PathParams},
      matchSegments segments (List.replicate count filler) params = some found → .literal filler ∉ segments →
      WildcardLast segments →
      Alike segments (captures count) ∨ ∃ some ≤ count, Alike segments (captures some ++ [.wildcard ""])
  | 0, [], _, _, _, _, _ => .inl .nil
  | count + 1, [], _, _, h, _, _ => by cases h
  | count, .wildcard name :: segments, _, _, _, _, hw => by
    obtain rfl := hw.1 rfl
    exact .inr ⟨0, Nat.zero_le _, .cons rfl .nil⟩
  | 0, .literal text :: segments, _, _, h, _, _ => by cases h
  | 0, .capture name :: segments, _, _, h, _, _ => by cases h
  | count + 1, .literal text :: segments, _, _, h, hfresh, _ => by
    simp only [List.replicate_succ, matchSegments, beq_iff_eq] at h
    split_ifs at h with htext
    rw [htext] at hfresh
    exact absurd List.mem_cons_self hfresh
  | count + 1, .capture name :: segments, _, _, h, hfresh, hw => by
    rw [List.replicate_succ, matchSegments] at h
    rcases alike_of_match_replicate h (fun hmem => hfresh (List.mem_cons_of_mem _ hmem)) hw.2 with hall | ⟨k, hk, hsome⟩
    · exact .inl (.cons rfl hall)
    · exact .inr ⟨k + 1, Nat.succ_le_succ hk, .cons rfl hsome⟩

/-- A filled-in path leads to no more specific segments but those that take it from the wildcard at the end. -/
theorem alike_of_outranks :
    ∀ {segments others : List Segment} {params found : PathParams}, Outranks others segments →
      matchSegments others (fillIn filler count segments) params = some found → .literal filler ∉ others →
      WildcardLast others → WildcardLast segments →
      ∃ front name, segments = front ++ [.wildcard name] ∧
        (Alike others (front ++ captures count) ∨
          ∃ some, 0 < some ∧ some ≤ count ∧ Alike others (front ++ (captures some ++ [.wildcard ""])))
  | .wildcard name :: segments, others, _, _, hout, h, hfresh, hw, hw' => by
    obtain rfl := hw'.1 rfl
    refine ⟨[], name, rfl, ?_⟩
    refine (alike_of_match_replicate h hfresh hw).imp_right ?_
    rintro ⟨k, hk, halike⟩
    refine ⟨k, ?_, hk, halike⟩
    -- a wildcard alone is not preferred to a wildcard
    rcases k.eq_zero_or_pos with rfl | hpos
    · cases halike with
      | cons hs hnil =>
        cases hnil
        have hrank := rank_eq_of_sameShape hs
        cases hout.later hrank
    · exact hpos
  | .literal text :: segments, [], _, _, _, h, _, _, _ => by cases h
  | .capture name :: segments, [], _, _, _, h, _, _, _ => by cases h
  | .literal text :: segments, .literal text' :: others, _, _, hout, h, hfresh, hw, hw' => by
    simp only [fillIn, matchSegments, beq_iff_eq] at h
    split_ifs at h with htext
    obtain ⟨front, name, rfl, hcases⟩ :=
      alike_of_outranks (hout.later rfl) h (fun hmem => hfresh (List.mem_cons_of_mem _ hmem)) hw.2 hw'.2
    have hs : (Segment.literal text').sameShape (.literal text) = true := beq_iff_eq.2 htext.symm
    refine ⟨.literal text :: front, name, rfl, hcases.imp (.cons hs) ?_⟩
    rintro ⟨k, hpos, hk, h⟩
    exact ⟨k, hpos, hk, .cons hs h⟩
  | .literal text :: segments, .capture name :: others, _, _, hout, _, _, _, _ => absurd hout.rank_le (by simp [rank])
  | .literal text :: segments, .wildcard name :: others, _, _, hout, _, _, _, _ => absurd hout.rank_le (by simp [rank])
  | .capture name :: segments, .literal text :: others, _, _, _, h, hfresh, _, _ => by
    simp only [fillIn, matchSegments, beq_iff_eq] at h
    split_ifs at h with htext
    rw [htext] at hfresh
    exact absurd List.mem_cons_self hfresh
  | .capture name :: segments, .capture name' :: others, _, _, hout, h, hfresh, hw, hw' => by
    obtain ⟨front, last, rfl, hcases⟩ :=
      alike_of_outranks (hout.later rfl) h (fun hmem => hfresh (List.mem_cons_of_mem _ hmem)) hw.2 hw'.2
    refine ⟨.capture name :: front, last, rfl, hcases.imp (.cons rfl) ?_⟩
    rintro ⟨k, hpos, hk, h⟩
    exact ⟨k, hpos, hk, .cons rfl h⟩
  | .capture name :: segments, .wildcard name' :: others, _, _, hout, _, _, _, _ => absurd hout.rank_le (by simp [rank])

/-! ## Literals of patterns -/

/-- The literals of a pattern are parts of its text. -/
theorem mem_of_literal_mem {text : String} :
    ∀ {parts seen : List String} {segments : List Segment}, readSegments seen parts = .ok segments →
      .literal text ∈ segments → text ∈ parts
  | [], _, _, h, hmem => by cases h; cases hmem
  | part :: parts, seen, segments, h, hmem => by
    obtain ⟨s, later, hread, -, hlater, -, rfl⟩ := readSegments_cons_ok h
    rcases List.mem_cons.1 hmem with rfl | hmem
    · rw [readSegment] at hread
      split at hread
      · cases hread
      · cases hread
      · cases hread
      · cases hread
      · cases hread
        exact List.mem_cons_self
    · exact List.mem_cons_of_mem _ (mem_of_literal_mem hlater hmem)

end Pattern

/-! ## Parts of paths -/

theorem mem_splitPath {path part : String} (h : part ∈ splitPath path) : part ≠ "" ∧ '/' ∉ part.toList := by
  obtain ⟨hsplit, hne⟩ := List.mem_filter.1 h
  exact ⟨by simpa using hne, Text.not_mem_of_mem_split hsplit⟩

/-- The path with these parts. -/
def pathOf (parts : List String) : String := "/" ++ Text.join "/" parts

theorem pathOf_head (parts : List String) : (pathOf parts).toList.head? = some '/' := by
  rw [pathOf, String.toList_append]
  rfl

theorem splitPath_join {parts : List String} (h : ∀ part ∈ parts, part ≠ "" ∧ '/' ∉ part.toList) :
    splitPath (Text.join "/" parts) = parts := by
  by_cases hparts : parts = []
  · rw [hparts]
    rfl
  · have hsplit : Text.split '/' (Text.join "/" parts) = parts := Text.split_join (fun part hp => (h part hp).2) hparts
    rw [splitPath, hsplit, List.filter_eq_self]
    exact fun part hp => by simpa using (h part hp).1

theorem splitPath_pathOf {parts : List String} (h : ∀ part ∈ parts, part ≠ "" ∧ '/' ∉ part.toList) :
    splitPath (pathOf parts) = parts := by
  have hempty : splitPath (pathOf parts) = splitPath (Text.join "/" parts) := splitPath_append "" _
  rw [hempty, splitPath_join h]

/-- Some part of a path is none of these texts. -/
theorem exists_part_notMem (texts : List String) : ∃ part : String, part ≠ "" ∧ '/' ∉ part.toList ∧ part ∉ texts := by
  obtain ⟨n, hn⟩ := Infinite.exists_notMem_finset (0 :: texts.map String.length).toFinset
  rw [List.mem_toFinset, List.mem_cons, not_or] at hn
  refine ⟨String.ofList (List.replicate n 'x'), fun h => hn.1 ?_, ?_, fun h => hn.2 ?_⟩
  · simpa using congrArg String.length h
  · simp
  · exact List.mem_map.2 ⟨_, h, by simp⟩

namespace Table

open Segment Pattern

variable {t : Table} {route : Route Handler} {method : Method}

/-- A table has a route for a method with segments like these. -/
def Has (t : Table) (method : Method) (segments : List Segment) : Prop :=
  ∃ r ∈ t.routes, r.method = method ∧ Alike r.pattern.segments segments

/-- A route ends with a wildcard whose paths all go to other routes: there is one with a wildcard after captures, and one
with each smaller number of captures and nothing after them. -/
def Covered (t : Table) (route : Route Handler) : Prop :=
  ∃ front name count, route.pattern.segments = front ++ [.wildcard name] ∧ 0 < count ∧
    t.Has route.method (front ++ (captures count ++ [.wildcard ""])) ∧
      ∀ fewer < count, t.Has route.method (front ++ captures fewer)

/-- Routes of which there is a rest of the path to choose: it goes to none of them. -/
theorem exists_free {front : List Segment}
    (h : ∀ count, 0 < count → t.Has method (front ++ (captures count ++ [.wildcard ""])) →
      ∃ fewer < count, ¬ t.Has method (front ++ captures fewer)) :
    ∃ count, ¬ t.Has method (front ++ captures count) ∧
      ∀ fewer, 0 < fewer → fewer ≤ count → ¬ t.Has method (front ++ (captures fewer ++ [.wildcard ""])) := by
  classical
  by_cases hsome : ∃ count, 0 < count ∧ t.Has method (front ++ (captures count ++ [.wildcard ""]))
  · -- fewer parts than the first of the wildcards takes
    obtain ⟨hpos, hhas⟩ := Nat.find_spec hsome
    obtain ⟨fewer, hlt, hfree⟩ := h _ hpos hhas
    exact ⟨fewer, hfree, fun k hk hle hk' => Nat.find_min hsome (Nat.lt_of_le_of_lt hle hlt) ⟨hk, hk'⟩⟩
  · -- a number of parts that no route has
    obtain ⟨count, hcount⟩ := Infinite.exists_notMem_finset
      (t.routes.map fun r => r.pattern.segments.length - front.length).toFinset
    refine ⟨count, fun hhas => hcount ?_, fun k hk _ hhas => hsome ⟨k, hk, hhas⟩⟩
    obtain ⟨r, hr, -, halike⟩ := hhas
    have hlength := halike.length_eq
    rw [List.length_append, captures, List.length_replicate] at hlength
    exact List.mem_toFinset.2 (List.mem_map.2 ⟨r, hr, by omega⟩)

/-- No path leads to a route that is covered. -/
theorem Searchable.not_covered (h : t.Searchable) {path : String} {found : Found}
    (hfound : t.find method path = .ok found) : ¬ t.Covered found.route := by
  rintro ⟨front, name, count, hsegments, hpos, hlonger, hfewer⟩
  obtain ⟨hmem, hfit, hmatch, hbest⟩ := h.first?_spec (find_eq_ok_iff.1 hfound)
  have hlast := h.wildcardLast _ hmem
  rw [match?, hsegments] at hmatch
  rw [hsegments] at hlast
  obtain ⟨rest, hrest⟩ := exists_rest_of_match hmatch hlast
  -- a route of the covering that matches the rest would have been found
  have hnone : ∀ r ∈ t.routes, r.method = found.route.method → ∀ front' tail, r.pattern.segments = front' ++ tail →
      Alike front' front → (∀ params, (matchSegments tail rest params).isSome) → ¬ Outranks tail [.wildcard name] := by
    intro r hr hm front' tail hr' halike hmatch' hout
    have hout' : Outranks r.pattern.segments found.route.pattern.segments := by
      rw [hr', hsegments]
      exact halike.outranks_append hout
    have hfit' : Fits method (splitPath path) r := ⟨hm.trans hfit.1, by rw [match?, hr']; exact hrest _ _ halike hmatch' _⟩
    rcases hbest r hr hfit' with rfl | hbetter
    · exact hout'.asymm hout'
    · exact hbetter.asymm hout'
  rcases Nat.lt_or_ge rest.length count with hlt | hge
  · obtain ⟨r, hr, hm, halike⟩ := hfewer _ hlt
    obtain ⟨front', tail, hr', hfront, htail⟩ := halike.of_append
    refine hnone r hr hm front' tail hr' hfront (fun _ => matchSegments_captures htail rfl) ?_
    exact Alike.outranks_wildcard (by rwa [List.append_nil]) fun _ => rfl
  · obtain ⟨r, hr, hm, halike⟩ := hlonger
    obtain ⟨front', tail, hr', hfront, htail⟩ := halike.of_append
    refine hnone r hr hm front' tail hr' hfront (fun _ => matchSegments_captures_wildcard htail hge) ?_
    exact htail.outranks_wildcard fun hzero => absurd hzero (Nat.ne_of_gt hpos)

/-- Some path leads to a route that is not covered. -/
theorem Searchable.exists_find (h : t.Searchable) (hroute : route ∈ t.routes)
    (hparts : ∀ text, .literal text ∈ route.pattern.segments → text ≠ "" ∧ '/' ∉ text.toList)
    (hcovered : ¬ t.Covered route) :
    ∃ path found, path.toList.head? = some '/' ∧ t.find route.method path = .ok found ∧ found.route = route := by
  -- the text for captures is no literal, and what is left for a wildcard goes to no other route
  obtain ⟨filler, hfiller, hslash, hnew⟩ :=
    exists_part_notMem (t.routes.flatMap fun r => r.pattern.segments.filterMap Segment.text?)
  have hfresh : ∀ r ∈ t.routes, .literal filler ∉ r.pattern.segments := fun r hr hmem =>
    hnew (List.mem_flatMap.2 ⟨r, hr, List.mem_filterMap.2 ⟨_, hmem, rfl⟩⟩)
  have hfree : ∃ count, ∀ front name, route.pattern.segments = front ++ [.wildcard name] →
      ¬ t.Has route.method (front ++ captures count) ∧
        ∀ fewer, 0 < fewer → fewer ≤ count → ¬ t.Has route.method (front ++ (captures fewer ++ [.wildcard ""])) := by
    by_cases hw : ∃ front name, route.pattern.segments = front ++ [.wildcard name]
    · obtain ⟨front, name, hsegments⟩ := hw
      have hall : ∀ count, 0 < count → t.Has route.method (front ++ (captures count ++ [.wildcard ""])) →
          ∃ fewer < count, ¬ t.Has route.method (front ++ captures fewer) := by
        intro count hpos hhas
        by_contra hnone
        push Not at hnone
        exact hcovered ⟨front, name, count, hsegments, hpos, hhas, hnone⟩
      obtain ⟨count, hcount⟩ := exists_free hall
      refine ⟨count, fun front' name' hsegments' => ?_⟩
      obtain ⟨rfl, -⟩ := List.append_inj' (hsegments.symm.trans hsegments') rfl
      exact hcount
    · exact ⟨0, fun front name hsegments => absurd ⟨front, name, hsegments⟩ hw⟩
  obtain ⟨count, hcount⟩ := hfree
  have hsplit : splitPath (pathOf (fillIn filler count route.pattern.segments)) =
      fillIn filler count route.pattern.segments := by
    refine splitPath_pathOf fun part hpart => ?_
    rcases mem_fillIn hpart with rfl | hliteral
    · exact ⟨hfiller, hslash⟩
    · exact hparts part hliteral
  have hfits : Fits route.method (fillIn filler count route.pattern.segments) route := ⟨rfl, matchSegments_fillIn _ _⟩
  obtain ⟨found, hfound⟩ := first?_isSome_iff.2 ⟨route, hroute, hfits⟩
  obtain ⟨hmem, hfit, hmatch, hbest⟩ := h.first?_spec hfound
  refine ⟨pathOf (fillIn filler count route.pattern.segments), found, pathOf_head _, ?_, ?_⟩
  · rw [find_eq_ok_iff, hsplit]
    exact hfound
  rcases hbest route hroute hfits with heq | hout
  · exact heq.symm
  · obtain ⟨front, name, hsegments, hother⟩ :=
      alike_of_outranks hout hmatch (hfresh _ hmem) (h.wildcardLast _ hmem) (h.wildcardLast _ hroute)
    obtain ⟨hshort, hlong⟩ := hcount front name hsegments
    rcases hother with halike | ⟨fewer, hpos, hle, halike⟩
    · exact absurd ⟨_, hmem, hfit.1, halike⟩ hshort
    · exact absurd ⟨_, hmem, hfit.1, halike⟩ (hlong fewer hpos hle)

end Table

namespace Router

/-- Some path leads to a route of a table unless other routes cover it, and no path leads to one that is covered. -/
theorem find_unless_covered {calls : List Registration} {route : Route Handler}
    (hroute : route ∈ (tableOf calls).routes) :
    (¬ (tableOf calls).Covered route → ∃ path found, path.toList.head? = some '/' ∧
      (tableOf calls).find route.method path = .ok found ∧ found.route = route) ∧
    ((tableOf calls).Covered route →
      ∀ method path found, (tableOf calls).find method path = .ok found → found.route ≠ route) := by
  constructor
  · intro hcovered
    refine (tableOf_searchable calls).exists_find hroute (fun text hmem => ?_) hcovered
    obtain ⟨c, -, hc⟩ := mem_tableOf_iff.1 hroute
    have hparse := (Registration.route?_eq_some_iff.1 hc).1
    exact mem_splitPath (Pattern.mem_of_literal_mem (Pattern.parse_eq_ok_iff.1 hparse).2.1 hmem)
  · rintro hcovered method path found hfound rfl
    exact (tableOf_searchable calls).not_covered hfound hcovered

/-- Calls for the root, for all that is longer than the root, and for all paths. -/
def wholeCalls : List Registration :=
  [⟨.get, "/", fun _ => ⟨0, .panicked none⟩⟩, ⟨.get, "/:x/*rest", fun _ => ⟨1, .panicked none⟩⟩,
    ⟨.get, "/*all", fun _ => ⟨2, .panicked none⟩⟩]

/-- The route for all paths. -/
def wholeRoute : Route Handler := ⟨.get, ⟨"/*all", [.wildcard "all"]⟩, fun _ => ⟨2, .panicked none⟩⟩

/-- The route for all that is longer than the root. -/
def longerRoute : Route Handler :=
  ⟨.get, ⟨"/:x/*rest", [.capture "x", .wildcard "rest"]⟩, fun _ => ⟨1, .panicked none⟩⟩

theorem tableOf_wholeCalls : (tableOf wholeCalls).routes =
    [⟨.get, ⟨"/", []⟩, fun _ => ⟨0, .panicked none⟩⟩, longerRoute, wholeRoute] := by rfl

theorem wholeRoute_mem : wholeRoute ∈ (tableOf wholeCalls).routes := by
  rw [tableOf_wholeCalls]
  simp

theorem longerRoute_mem : longerRoute ∈ (tableOf wholeCalls).routes := by
  rw [tableOf_wholeCalls]
  simp

theorem covered_wholeRoute : (tableOf wholeCalls).Covered wholeRoute := by
  have hroot : (tableOf wholeCalls).Has .get [] := by
    refine ⟨⟨.get, ⟨"/", []⟩, fun _ => ⟨0, .panicked none⟩⟩, ?_, rfl, .nil⟩
    rw [tableOf_wholeCalls]
    exact List.mem_cons_self
  have hlonger : (tableOf wholeCalls).Has .get [.capture "", .wildcard ""] :=
    ⟨longerRoute, longerRoute_mem, rfl, .cons rfl (.cons rfl .nil)⟩
  refine ⟨[], "all", 1, rfl, Nat.one_pos, hlonger, fun fewer hlt => ?_⟩
  rw [Nat.lt_one_iff.1 hlt]
  exact hroot

/-- No route of this table has three segments, as a route would need that covers together with others. -/
theorem not_covered_longerRoute : ¬ (tableOf wholeCalls).Covered longerRoute := by
  rintro ⟨front, name, count, hsegments, hpos, ⟨r, hr, -, halike⟩, -⟩
  have hfront : front.length = 1 := by
    have hlength := congrArg List.length hsegments
    rw [List.length_append] at hlength
    exact (Nat.succ.inj hlength).symm
  have hlong := halike.length_eq
  rw [List.length_append, List.length_append, hfront, Segment.captures, List.length_replicate] at hlong
  have hshort : r.pattern.segments.length ≤ 2 := by
    rw [tableOf_wholeCalls] at hr
    simp only [List.mem_cons, List.not_mem_nil, or_false] at hr
    rcases hr with rfl | rfl | rfl <;> decide
  rw [hlong, List.length_singleton] at hshort
  omega

/-- In this table some path leads to the route for all that is longer than the root, and none to the route for all
paths. -/
theorem find_among_wholeCalls :
    (longerRoute ∈ (tableOf wholeCalls).routes ∧ ∃ path found, path.toList.head? = some '/' ∧
      (tableOf wholeCalls).find .get path = .ok found ∧ found.route = longerRoute) ∧
    wholeRoute ∈ (tableOf wholeCalls).routes ∧
      ∀ method path found, (tableOf wholeCalls).find method path = .ok found → found.route ≠ wholeRoute :=
  ⟨⟨longerRoute_mem, (find_unless_covered longerRoute_mem).1 not_covered_longerRoute⟩,
    wholeRoute_mem, (find_unless_covered wholeRoute_mem).2 covered_wholeRoute⟩

/-- All three calls are accepted, and no path leads to the route of the third one. -/
theorem accepted_but_never_found :
    accepted wholeCalls empty = wholeCalls ∧ ∃ route ∈ (tableOf wholeCalls).routes,
      ¬ ∃ path found, (tableOf wholeCalls).find route.method path = .ok found ∧ found.route = route := by
  refine ⟨rfl, wholeRoute, wholeRoute_mem, ?_⟩
  rintro ⟨path, found, hfound, hroute⟩
  have hcovered := (tableOf_searchable wholeCalls).not_covered hfound
  rw [hroute] at hcovered
  exact hcovered covered_wholeRoute

end Router

end Hypertext

/-
Specificity: which of two patterns is to be preferred. The order looks at the kinds of segments only, not at the texts
of literals; of the patterns that match one path no two are alike in this order unless they are ambiguous.
-/
import Hypertext.Route.Pattern
import Mathlib.Data.List.Lex
import Mathlib.Tactic.SplitIfs

namespace Hypertext

/-! ## Ranks -/

namespace Pattern

theorem compareRanks_eq_lt_iff : ∀ {as bs : List Nat}, compareRanks as bs = .lt ↔ as < bs
  | [], [] => by simp [compareRanks]
  | [], b :: bs => by simp [compareRanks]
  | a :: as, [] => by simp [compareRanks]
  | a :: as, b :: bs => by
    rw [compareRanks, Ordering.then_eq_lt, List.cons_lt_cons_iff, Nat.compare_eq_lt, Nat.compare_eq_eq,
      compareRanks_eq_lt_iff]

theorem compareRanks_eq_gt_iff : ∀ {as bs : List Nat}, compareRanks as bs = .gt ↔ bs < as
  | [], [] => by simp [compareRanks]
  | [], b :: bs => by simp [compareRanks]
  | a :: as, [] => by simp [compareRanks]
  | a :: as, b :: bs => by
    rw [compareRanks, Ordering.then_eq_gt, List.cons_lt_cons_iff, Nat.compare_eq_gt, Nat.compare_eq_eq,
      compareRanks_eq_gt_iff, eq_comm (a := a)]

theorem compareSpecificity_eq_gt_iff {p q : Pattern} : p.compareSpecificity q = .gt ↔ q.ranks < p.ranks :=
  compareRanks_eq_gt_iff

end Pattern

namespace Segment

/-- Segments that are to be preferred to others: at the leftmost place where the kinds differ they have a literal
where the others capture, or a capture of one segment where the others have a wildcard, or they have ended. -/
inductive Outranks : List Segment → List Segment → Prop
  | ended {s : Segment} {segments : List Segment} : Outranks [] (s :: segments)
  | lower {s s' : Segment} {segments segments' : List Segment} (h : s.rank < s'.rank) :
      Outranks (s :: segments) (s' :: segments')
  | same {s s' : Segment} {segments segments' : List Segment} (h : s.rank = s'.rank)
      (later : Outranks segments segments') : Outranks (s :: segments) (s' :: segments')

theorem outranks_iff : ∀ {segments segments' : List Segment},
    Outranks segments segments' ↔ segments.map rank < segments'.map rank
  | [], [] => ⟨fun h => (by cases h), fun h => absurd h (List.not_lt_nil _)⟩
  | [], s :: segments => ⟨fun _ => List.nil_lt_cons _ _, fun _ => .ended⟩
  | s :: segments, [] => ⟨fun h => (by cases h), fun h => absurd h (List.not_lt_nil _)⟩
  | s :: segments, s' :: segments' => by
    rw [List.map_cons, List.map_cons, List.cons_lt_cons_iff]
    constructor
    · intro h
      cases h with
      | lower h => exact .inl h
      | same h later => exact .inr ⟨h, outranks_iff.1 later⟩
    · rintro (h | ⟨h, later⟩)
      · exact .lower h
      · exact .same h (outranks_iff.2 later)

/-- Of two patterns at most one is to be preferred to the other. -/
theorem Outranks.asymm {segments segments' : List Segment} (h : Outranks segments segments') :
    ¬ Outranks segments' segments :=
  fun h' => lt_asymm (outranks_iff.1 h) (outranks_iff.1 h')

theorem sameShape_comm (s s' : Segment) : s.sameShape s' = s'.sameShape s := by
  cases s <;> cases s' <;> simp [sameShape, Bool.beq_comm]

theorem sameShape_self (s : Segment) : s.sameShape s = true := by cases s <;> simp [sameShape]

end Segment

/-! ## Ambiguity -/

namespace Pattern

open Segment

theorem isAmbiguousWith_cons {raw raw' : String} {s s' : Segment} {segments segments' : List Segment} :
    isAmbiguousWith ⟨raw, s :: segments⟩ ⟨raw', s' :: segments'⟩ =
      (s.sameShape s' && isAmbiguousWith ⟨raw, segments⟩ ⟨raw', segments'⟩) := by
  have hlength : ((s :: segments).length == (s' :: segments').length) = (segments.length == segments'.length) := by
    simp [beq_eq_decide]
  simp only [isAmbiguousWith, hlength, List.zip_cons_cons, List.all_cons]
  rw [← Bool.and_assoc, Bool.and_comm (segments.length == _), Bool.and_assoc]

theorem isAmbiguousWith_comm (p q : Pattern) : p.isAmbiguousWith q = q.isAmbiguousWith p :=
  comm p.raw q.raw p.segments q.segments
where
  comm (raw raw' : String) : ∀ segments segments' : List Segment,
      isAmbiguousWith ⟨raw, segments⟩ ⟨raw', segments'⟩ = isAmbiguousWith ⟨raw', segments'⟩ ⟨raw, segments⟩
    | [], [] => rfl
    | [], _ :: _ => rfl
    | _ :: _, [] => rfl
    | s :: segments, s' :: segments' => by
      rw [isAmbiguousWith_cons, isAmbiguousWith_cons, sameShape_comm, comm]

theorem isAmbiguousWith_self (p : Pattern) : p.isAmbiguousWith p = true := by
  have hall : ∀ segments : List Segment, isAmbiguousWith ⟨p.raw, segments⟩ ⟨p.raw, segments⟩ = true := by
    intro segments
    induction segments with
    | nil => rfl
    | cons s segments ih =>
      rw [isAmbiguousWith_cons, sameShape_self, ih]
      rfl
  exact hall p.segments

/-- A wildcard stands at the end only. -/
def WildcardLast : List Segment → Prop
  | [] => True
  | s :: segments => (s.isWildcard = true → segments = []) ∧ WildcardLast segments

/-- The segments of a text: the first one, which captures under a new name and is no wildcard if there are more, and the
others. -/
theorem readSegments_cons_ok {seen parts : List String} {part : String} {segments : List Segment}
    (h : readSegments seen (part :: parts) = .ok segments) :
    ∃ s later, readSegment part = .ok s ∧ (∀ name ∈ s.name?, name ∉ seen) ∧
      readSegments (seen ++ s.name?.toList) parts = .ok later ∧ (s.isWildcard = true → parts = []) ∧
      segments = s :: later := by
  simp only [readSegments, bind, Except.bind] at h
  split at h
  · cases h
  · next s hs =>
    split_ifs at h with hnames hlast
    split at h
    · cases h
    · next later hlater =>
      cases h
      refine ⟨s, later, hs, fun name hname hseen => hnames ?_, hlater, fun hw => ?_, rfl⟩
      · rw [Option.mem_def.1 hname]
        simpa using hseen
      · simpa [hw] using hlast

theorem readSegments_wildcardLast :
    ∀ {parts seen : List String} {segments : List Segment}, readSegments seen parts = .ok segments →
      WildcardLast segments
  | [], _, _, h => by cases h; trivial
  | part :: parts, seen, segments, h => by
    obtain ⟨s, later, -, -, hlater, hlast, rfl⟩ := readSegments_cons_ok h
    refine ⟨fun hw => ?_, readSegments_wildcardLast hlater⟩
    rw [hlast hw] at hlater
    cases hlater
    rfl

theorem parse_eq_ok_iff {text : String} {p : Pattern} :
    parse text = .ok p ↔
      text.toList.head? = some '/' ∧ readSegments [] (splitPath text) = .ok p.segments ∧ p.raw = text := by
  unfold parse
  by_cases h : text.toList.head? = some '/'
  · rw [if_pos (by simp [h])]
    cases hread : readSegments [] (splitPath text) with
    | error e => simp [Except.map]
    | ok segments =>
      cases p
      simp [Except.map, h, and_comm, eq_comm]
  · rw [if_neg (by simp [h])]
    simp [h]

/-- Segments capture under different names, none of which was there before. -/
theorem readSegments_names :
    ∀ {parts seen : List String} {segments : List Segment}, readSegments seen parts = .ok segments →
      (segments.filterMap name?).Nodup ∧ ∀ name ∈ segments.filterMap name?, name ∉ seen
  | [], _, _, h => by
    cases h
    simp
  | part :: parts, seen, segments, h => by
    obtain ⟨s, later, -, hnew, hlater, -, rfl⟩ := readSegments_cons_ok h
    obtain ⟨hnodup, hfresh⟩ := readSegments_names hlater
    cases hs : s.name? with
    | none =>
      rw [List.filterMap_cons_none hs]
      exact ⟨hnodup, fun name hname hseen => hfresh name hname (List.mem_append_left _ hseen)⟩
    | some first =>
      rw [List.filterMap_cons_some hs, List.nodup_cons]
      rw [hs] at hfresh hnew
      refine ⟨⟨fun hmem => hfresh first hmem (by simp), hnodup⟩, fun name hname hseen => ?_⟩
      rcases List.mem_cons.1 hname with rfl | hname
      · exact hnew name rfl hseen
      · exact hfresh name hname (List.mem_append_left _ hseen)

/-- A pattern captures under different names. -/
theorem parse_names_nodup {text : String} {p : Pattern} (h : parse text = .ok p) : p.names.Nodup :=
  (readSegments_names (parse_eq_ok_iff.1 h).2.1).1

theorem parse_wildcardLast {text : String} {p : Pattern} (h : parse text = .ok p) : WildcardLast p.segments :=
  readSegments_wildcardLast (parse_eq_ok_iff.1 h).2.1

/-- Two patterns of one kind that match one path are ambiguous: their literals are the parts of the path. -/
theorem isAmbiguousWith_of_match {raw raw' : String} :
    ∀ {segments segments' : List Segment} {path : List String} {params params' found found' : PathParams},
      WildcardLast segments → WildcardLast segments' →
      matchSegments segments path params = some found → matchSegments segments' path params' = some found' →
      segments.map rank = segments'.map rank → isAmbiguousWith ⟨raw, segments⟩ ⟨raw', segments'⟩ = true
  | [], [], _, _, _, _, _, _, _, _, _, _ => rfl
  | [], _ :: _, _, _, _, _, _, _, _, _, _, hr => by cases hr
  | _ :: _, [], _, _, _, _, _, _, _, _, _, hr => by cases hr
  | s :: segments, s' :: segments', path, params, params', found, found', hw, hw', h, h', hr => by
    rw [List.map_cons, List.map_cons, List.cons.injEq] at hr
    obtain ⟨hs, hr⟩ := hr
    rw [isAmbiguousWith_cons, Bool.and_eq_true]
    cases s with
    | literal text =>
      cases s' with
      | literal text' =>
        cases path with
        | nil => cases h
        | cons part path =>
          simp only [matchSegments, beq_iff_eq] at h h'
          split_ifs at h h' with hpart hpart'
          refine ⟨?_, isAmbiguousWith_of_match hw.2 hw'.2 h h' hr⟩
          rw [← hpart, ← hpart']
          exact sameShape_self _
      | _ => cases hs
    | capture name =>
      cases s' with
      | capture name' =>
        cases path with
        | nil => cases h
        | cons part path => exact ⟨rfl, isAmbiguousWith_of_match hw.2 hw'.2 h h' hr⟩
      | _ => cases hs
    | wildcard name =>
      cases s' with
      | wildcard name' =>
        -- nothing comes after a wildcard
        obtain rfl := hw.1 rfl
        obtain rfl := hw'.1 rfl
        exact ⟨rfl, rfl⟩
      | _ => cases hs

end Pattern

end Hypertext

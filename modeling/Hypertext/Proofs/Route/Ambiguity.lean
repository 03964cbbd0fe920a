/-
Ambiguity: two patterns conflict exactly if they are equally specific and some path matches both. Which paths a pattern
matches depends on the shape of its segments only, and patterns of one shape are a class of an equivalence; so of two
patterns that share a path and do not conflict one is more specific than the other.
-/
import Hypertext.Proofs.Route.Reachability

namespace Hypertext

/-! ## Segments of one shape -/

namespace Segment

theorem sameShape_trans {s s' s'' : Segment} (h : s.sameShape s' = true) (h' : s'.sameShape s'' = true) :
    s.sameShape s'' = true := by
  cases s <;> cases s' <;> cases s'' <;> simp_all [sameShape]

theorem Alike.trans {segments segments' segments'' : List Segment} (h : Alike segments segments')
    (h' : Alike segments' segments'') : Alike segments segments'' := by
  induction h generalizing segments'' with
  | nil => exact h'
  | cons hs _ ih =>
    cases h' with
    | cons hs' htail => exact .cons (sameShape_trans hs hs') (ih htail)

theorem Alike.ranks_eq {segments segments' : List Segment} (h : Alike segments segments') :
    segments.map rank = segments'.map rank := by
  induction h with
  | nil => rfl
  | cons hs _ ih => rw [List.map_cons, List.map_cons, rank_eq_of_sameShape hs, ih]

end Segment

namespace Pattern

open Segment

theorem isAmbiguousWith_iff_alike {p q : Pattern} : p.isAmbiguousWith q = true ↔ Alike p.segments q.segments := by
  obtain ⟨raw, segments⟩ := p
  obtain ⟨raw', segments'⟩ := q
  induction segments generalizing segments' with
  | nil =>
    cases segments' with
    | nil => exact ⟨fun _ => .nil, fun _ => rfl⟩
    | cons s' segments' => exact ⟨fun h => (by cases h), fun h => (by cases h)⟩
  | cons s segments ih =>
    cases segments' with
    | nil => exact ⟨fun h => (by cases h), fun h => (by cases h)⟩
    | cons s' segments' =>
      rw [isAmbiguousWith_cons, Bool.and_eq_true, ih]
      constructor
      · rintro ⟨hs, htail⟩
        exact .cons hs htail
      · intro h
        cases h with
        | cons hs htail => exact ⟨hs, htail⟩

/-- Ambiguous patterns are all alike. -/
theorem isAmbiguousWith_equivalence : Equivalence fun p q : Pattern => p.isAmbiguousWith q = true where
  refl := isAmbiguousWith_self
  symm h := by rw [isAmbiguousWith_comm]; exact h
  trans h h' := by
    rw [isAmbiguousWith_iff_alike] at h h' ⊢
    exact h.trans h'

/-! ## Specificity -/

theorem compareSpecificity_eq_lt_iff {p q : Pattern} : p.compareSpecificity q = .lt ↔ p.ranks < q.ranks :=
  compareRanks_eq_lt_iff

theorem compareSpecificity_eq_eq_iff {p q : Pattern} : p.compareSpecificity q = .eq ↔ p.ranks = q.ranks := by
  constructor
  · intro h
    rcases lt_trichotomy p.ranks q.ranks with hlt | heq | hgt
    · rw [compareSpecificity_eq_lt_iff.2 hlt] at h
      cases h
    · exact heq
    · rw [compareSpecificity_eq_gt_iff.2 hgt] at h
      cases h
  · intro h
    cases hc : p.compareSpecificity q with
    | lt => exact absurd h (ne_of_lt (compareSpecificity_eq_lt_iff.1 hc))
    | eq => rfl
    | gt => exact absurd h (ne_of_gt (compareSpecificity_eq_gt_iff.1 hc))

/-! ## Paths of two patterns -/

/-- Segments of one shape match the same paths. -/
theorem matchSegments_alike {segments segments' : List Segment} (h : Alike segments segments') {path : List String}
    {params params' : PathParams} (hm : (matchSegments segments path params).isSome) :
    (matchSegments segments' path params').isSome := by
  induction h generalizing path params params' with
  | nil =>
    cases path with
    | nil => rfl
    | cons part path => cases hm
  | @cons s s' segments segments' hs _ ih =>
    cases s with
    | literal text =>
      cases s' with
      | literal text' =>
        obtain rfl : text = text' := beq_iff_eq.1 hs
        cases path with
        | nil => cases hm
        | cons part path =>
          simp only [matchSegments] at hm ⊢
          split_ifs at hm ⊢ with hpart
          · exact ih hm
          · cases hm
      | _ => cases hs
    | capture name =>
      cases s' with
      | capture name' =>
        cases path with
        | nil => cases hm
        | cons part path => exact ih hm
      | _ => cases hs
    | wildcard name =>
      cases s' with
      | wildcard name' => cases path <;> rfl
      | _ => cases hs

/-- A pattern has a path. -/
theorem exists_path {text : String} {p : Pattern} (hp : parse text = .ok p) :
    ∃ path, (p.match? (splitPath path)).isSome := by
  obtain ⟨filler, hne, hslash, -⟩ := exists_part_notMem []
  refine ⟨pathOf (fillIn filler 0 p.segments), ?_⟩
  rw [splitPath_pathOf]
  · exact matchSegments_fillIn _ _
  · intro part hpart
    rcases mem_fillIn hpart with rfl | hliteral
    · exact ⟨hne, hslash⟩
    · exact mem_splitPath (mem_of_literal_mem (parse_eq_ok_iff.1 hp).2.1 hliteral)

/-- Two patterns conflict exactly if they are equally specific and some path matches both. This is an equivalence, and of
two patterns that do not conflict and have a path in common one is more specific than the other. -/
theorem isAmbiguousWith_iff {text text' : String} {p q : Pattern} (hp : parse text = .ok p) (hq : parse text' = .ok q) :
    (p.isAmbiguousWith q = true ↔ p.compareSpecificity q = .eq ∧
      ∃ path, (p.match? (splitPath path)).isSome ∧ (q.match? (splitPath path)).isSome) ∧
    (p.isAmbiguousWith q = false →
      ∀ path, (p.match? (splitPath path)).isSome → (q.match? (splitPath path)).isSome →
        (p.compareSpecificity q = .lt ∧ q.compareSpecificity p = .gt) ∨
          (p.compareSpecificity q = .gt ∧ q.compareSpecificity p = .lt)) ∧
    Equivalence fun p q : Pattern => p.isAmbiguousWith q = true := by
  have hshared : ∀ path, (p.match? (splitPath path)).isSome → (q.match? (splitPath path)).isSome →
      p.ranks = q.ranks → p.isAmbiguousWith q = true := by
    intro path hmp hmq hranks
    obtain ⟨params, hmp⟩ := Option.isSome_iff_exists.1 hmp
    obtain ⟨params', hmq⟩ := Option.isSome_iff_exists.1 hmq
    exact isAmbiguousWith_of_match (parse_wildcardLast hp) (parse_wildcardLast hq) hmp hmq hranks
  refine ⟨⟨fun h => ?_, ?_⟩, fun h path hmp hmq => ?_, isAmbiguousWith_equivalence⟩
  · have halike := isAmbiguousWith_iff_alike.1 h
    obtain ⟨path, hpath⟩ := exists_path hp
    exact ⟨compareSpecificity_eq_eq_iff.2 halike.ranks_eq, path, hpath, matchSegments_alike halike hpath⟩
  · rintro ⟨heq, path, hmp, hmq⟩
    exact hshared path hmp hmq (compareSpecificity_eq_eq_iff.1 heq)
  · have hne : p.ranks ≠ q.ranks := by
      intro hranks
      rw [hshared path hmp hmq hranks] at h
      cases h
    rcases lt_or_gt_of_ne hne with hlt | hgt
    · exact .inl ⟨compareSpecificity_eq_lt_iff.2 hlt, compareSpecificity_eq_gt_iff.2 hlt⟩
    · exact .inr ⟨compareSpecificity_eq_gt_iff.2 hgt, compareSpecificity_eq_lt_iff.2 hgt⟩

/-- Patterns whose captures have other names share a path and are equally specific, so they conflict, whichever is
first. A capture and a wildcard share the same path and do not conflict: the capture is more specific. -/
theorem isAmbiguousWith_of_captures_and_wildcard :
    let p : Pattern := ⟨"/a/:x", [.literal "a", .capture "x"]⟩
    let q : Pattern := ⟨"/a/:z", [.literal "a", .capture "z"]⟩
    let r : Pattern := ⟨"/:y/*", [.capture "y", .wildcard "wildcard"]⟩
    parse "/a/:x" = .ok p ∧ parse "/a/:z" = .ok q ∧ parse "/:y/*" = .ok r ∧
      (∀ s ∈ [p, q, r], (s.match? (splitPath "/a/b")).isSome) ∧
      p.isAmbiguousWith q = true ∧ q.isAmbiguousWith p = true ∧
      p.isAmbiguousWith r = false ∧ p.compareSpecificity r = .lt ∧ r.compareSpecificity p = .gt := by
  intro p q r
  have hp : parse "/a/:x" = .ok p := by rfl
  have hq : parse "/a/:z" = .ok q := by rfl
  have hr : parse "/:y/*" = .ok r := by rfl
  have hmp : (p.match? (splitPath "/a/b")).isSome := by rfl
  have hmq : (q.match? (splitPath "/a/b")).isSome := by rfl
  have hmr : (r.match? (splitPath "/a/b")).isSome := by rfl
  have hmatch : ∀ s ∈ [p, q, r], (s.match? (splitPath "/a/b")).isSome := by
    simp only [List.forall_mem_cons]
    exact ⟨hmp, hmq, hmr, List.forall_mem_nil _⟩
  obtain ⟨hiff, -, hequivalence⟩ := isAmbiguousWith_iff hp hq
  have hconflict : p.isAmbiguousWith q = true := hiff.2 ⟨by rfl, "/a/b", hmp, hmq⟩
  refine ⟨hp, hq, hr, hmatch, hconflict, hequivalence.symm hconflict, rfl, ?_⟩
  rcases (isAmbiguousWith_iff hp hr).2.1 rfl "/a/b" hmp hmr with h | h
  · exact h
  · exact absurd h.1 (by decide)

end Pattern

end Hypertext

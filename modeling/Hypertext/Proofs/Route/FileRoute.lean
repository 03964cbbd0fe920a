/-
File routes: the pattern of all paths at and below another one. What such a route captures is the path that is left
below, whatever else the pattern captures.
-/
import Hypertext.Dispatch
import Hypertext.Proofs.Route.Lookup
import Hypertext.Route.Directory

namespace Hypertext

/-! ## Parts of paths -/

theorem splitPath_append (path path' : String) : splitPath (path ++ "/" ++ path') = splitPath path ++ splitPath path' := by
  have hsplit : Text.split '/' (path ++ "/" ++ path') = Text.split '/' path ++ Text.split '/' path' :=
    Text.split_append '/' path path'
  rw [splitPath, hsplit, List.filter_append]
  rfl

/-- Slashes at the end add no parts. -/
theorem splitPath_trimEnd (path : String) : splitPath (Text.trimEnd '/' path) = splitPath path := by
  have hreverse : ∀ cs : List Char,
      splitPath (String.ofList (cs.dropWhile (· == '/')).reverse) = splitPath (String.ofList cs.reverse) := by
    intro cs
    induction cs with
    | nil => rfl
    | cons c cs ih =>
      by_cases hc : c = '/'
      · subst hc
        have hlast : String.ofList ('/' :: cs).reverse = String.ofList cs.reverse ++ "/" ++ "" := by
          rw [← String.toList_inj]
          simp
        rw [hlast, splitPath_append, List.dropWhile_cons_of_pos (by simp), ih]
        exact (List.append_nil _).symm
      · rw [List.dropWhile_cons_of_neg (by simpa using hc)]
  rw [Text.trimEnd, hreverse, List.reverse_reverse, String.ofList_toList]

/-! ## Patterns with a wildcard at the end -/

namespace Pattern

/-- Parts of which the last one is a wildcard are read as that many segments, with no other wildcard. -/
theorem readSegments_append_wildcard {part name : String} (hpart : readSegment part = .ok (.wildcard name)) :
    ∀ {parts seen : List String} {segments : List Segment}, readSegments seen (parts ++ [part]) = .ok segments →
      ∃ front, segments = front ++ [.wildcard name] ∧ front.length = parts.length ∧ ∀ s ∈ front, s.isWildcard = false
  | [], seen, segments, h => by
    simp only [List.nil_append, readSegments, hpart, bind, Except.bind] at h
    split_ifs at h with hseen hlast
    cases h
    exact ⟨[], rfl, rfl, by simp⟩
  | first :: parts, seen, segments, h => by
    obtain ⟨s, later, -, -, hlater, hlast, rfl⟩ := readSegments_cons_ok h
    obtain ⟨front, rfl, hlength, hfront⟩ := readSegments_append_wildcard hpart hlater
    refine ⟨s :: front, rfl, by rw [List.length_cons, List.length_cons, hlength], fun s' hs' => ?_⟩
    rcases List.mem_cons.1 hs' with rfl | hs'
    · by_contra hw
      exact absurd (hlast (by simpa using hw)) (by simp)
    · exact hfront s' hs'

/-- What a wildcard captures is the rest of the path, after one part for each segment before it. -/
theorem matchSegments_append_wildcard {name : String} :
    ∀ {front : List Segment} {path : List String} {params found : PathParams}, (∀ s ∈ front, s.isWildcard = false) →
      matchSegments (front ++ [.wildcard name]) path params = some found →
        found.get? name = some (Text.join "/" (path.drop front.length))
  | [], path, params, found, _, h => by
    simp only [List.nil_append, matchSegments, Option.some.injEq] at h
    rw [← h, PathParams.get?_insert_self]
    rfl
  | s :: front, [], params, found, hfront, h => by
    have hs := hfront s List.mem_cons_self
    cases s with
    | wildcard name' => cases hs
    | _ => cases h
  | s :: front, part :: path, params, found, hfront, h => by
    have hs := hfront s List.mem_cons_self
    have hlater : ∀ s ∈ front, s.isWildcard = false := fun s' hs' => hfront s' (List.mem_cons_of_mem _ hs')
    rw [List.length_cons, List.drop_succ_cons]
    cases s with
    | wildcard name' => cases hs
    | capture name' => exact matchSegments_append_wildcard hlater h
    | literal text =>
      simp only [List.cons_append, matchSegments] at h
      split_ifs at h
      exact matchSegments_append_wildcard hlater h

end Pattern

theorem Table.match_of_find {t : Table} {method : Method} {path : String} {found : Found}
    (h : t.find method path = .ok found) : found.route.pattern.match? (splitPath path) = some found.params := by
  obtain ⟨route, -, hroute⟩ := List.exists_of_findSome?_eq_some (Table.find_eq_ok_iff.1 h)
  split_ifs at hroute
  obtain ⟨params, hparams, rfl⟩ := Option.map_eq_some_iff.1 hroute
  exact hparams

/-! ## The path below -/

namespace FileRoute

/-- The part of a path that is left below another one. -/
def below (base path : String) : String := Text.join "/" ((splitPath path).drop (splitPath base).length)

theorem splitPath_pattern (base : String) : splitPath (pattern base) = splitPath base ++ ["*path"] := by
  have hpattern : pattern base = Text.trimEnd '/' base ++ "/" ++ "*path" := by
    rw [← String.toList_inj]
    simp [pattern, pathName]
  rw [hpattern, splitPath_append, splitPath_trimEnd]
  rfl

/-- A file route captures what is left of the path below its base. -/
theorem capture_of_match {base : String} {path : List String} {p : Pattern} {params : PathParams}
    (hp : Pattern.parse (pattern base) = .ok p) (h : p.match? path = some params) :
    params.get? pathName = some (Text.join "/" (path.drop (splitPath base).length)) := by
  have hread := (Pattern.parse_eq_ok_iff.1 hp).2.1
  rw [splitPath_pattern] at hread
  have hlast : Pattern.readSegment "*path" = .ok (.wildcard pathName) := rfl
  obtain ⟨front, hsegments, hlength, hfront⟩ := Pattern.readSegments_append_wildcard hlast hread
  rw [Pattern.match?, hsegments] at h
  rw [Pattern.matchSegments_append_wildcard hfront h, hlength]

/-- A request is given to the route with this handler for the paths at and below a base. -/
structure Runs (D : Dispatcher) (base : String) (h : Handler) (q : Request) (found : Found) : Prop where
  lookup : D.table.find .get q.path = .ok found
  route : (Registration.mk .get (pattern base) h).route? = some found.route
  plan : D.plan q = Dispatcher.run q found

variable {D : Dispatcher} {base : String} {f : Context → Except HandlerError Response} {q : Request} {found : Found}

theorem Runs.param (h : Runs D base (Handler.immediate f) q found) :
    found.params.get? pathName = some (below base q.path) := by
  have hparse := (Registration.route?_eq_some_iff.1 h.route).1
  exact capture_of_match hparse (Table.match_of_find h.lookup)

/-- A handler that takes no time answers within any limit but none at all. -/
theorem Runs.dispatch (h : Runs D base (Handler.immediate f) q found) :
    D.dispatch q =
      if 0 < D.limit.millis then
        match f ⟨q, found.params⟩ with
        | .ok r => .ok r
        | .error e => Dispatcher.conclude (.failed e)
      else .error (.handlerTimeout D.limit) := by
  have hhandler := (Registration.route?_eq_some_iff.1 h.route).2.2
  unfold Dispatcher.dispatch
  rw [h.plan, Dispatcher.run, ← hhandler]
  cases hf : f ⟨q, found.params⟩ with
  | ok r => simp [Handler.immediate, hf, Dispatcher.inTime, Dispatcher.conclude]
  | error e => simp [Handler.immediate, hf, Dispatcher.inTime]

end FileRoute

end Hypertext

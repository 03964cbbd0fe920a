/-
Registration: what a router holds after any calls, those that failed included. It is the routes that were accepted, of
which those of one method are in the order of specificity and no two are ambiguous; so the first route that matches a
path is the most specific one, and the order of the calls does not show.
-/
import Hypertext.Proofs.Route.Specificity
import Hypertext.Route.Router
import Mathlib.Data.Prod.Lex
import Mathlib.Data.String.Basic

namespace Hypertext

/-! ## Calls -/

/-- A call that registers a handler for a method and a pattern. -/
structure Registration where
  method : Method
  pattern : String
  handler : Handler

namespace Registration

/-- The route that is registered, if the pattern is one. -/
def route? (c : Registration) : Option (Route Handler) :=
  match Pattern.parse c.pattern with
  | .ok pattern => some ⟨c.method, pattern, c.handler⟩
  | .error _ => none

/-- Whether the route is one of this method and matches this path. -/
def Serves (c : Registration) (method : Method) (path : String) : Prop :=
  c.method = method ∧ ∃ route, c.route? = some route ∧ (route.pattern.match? (splitPath path)).isSome

/-- Whether the pattern is to be preferred to that of another call. -/
def Outranks (c d : Registration) : Prop :=
  ∃ r s, c.route? = some r ∧ d.route? = some s ∧ Segment.Outranks r.pattern.segments s.pattern.segments

theorem route?_eq_some_iff {c : Registration} {route : Route Handler} :
    c.route? = some route ↔ Pattern.parse c.pattern = .ok route.pattern ∧
      c.method = route.method ∧ c.handler = route.endpoint := by
  unfold route?
  cases hp : Pattern.parse c.pattern with
  | error e => simp
  | ok p =>
    cases route
    simp [and_left_comm]

theorem route?_injective {c d : Registration} {route : Route Handler} (hc : c.route? = some route)
    (hd : d.route? = some route) : c = d := by
  obtain ⟨hc1, hc2, hc3⟩ := route?_eq_some_iff.1 hc
  obtain ⟨hd1, hd2, hd3⟩ := route?_eq_some_iff.1 hd
  have htext := (Pattern.parse_eq_ok_iff.1 hc1).2.2.symm.trans (Pattern.parse_eq_ok_iff.1 hd1).2.2
  cases c
  cases d
  simp_all

end Registration

/-! ## Lists of routes -/

namespace Route

variable {α β : Type}

/-- A route may stand before another one. -/
def Before (r s : Route α) : Prop := r.method = s.method → r.pattern.ranks ≤ s.pattern.ranks

/-- Two routes are not ambiguous. -/
def Apart (r s : Route α) : Prop := r.method = s.method → r.pattern.isAmbiguousWith s.pattern = false

theorem Apart.symm {r s : Route α} (h : r.Apart s) : s.Apart r := by
  intro hm
  rw [Pattern.isAmbiguousWith_comm]
  exact h hm.symm

theorem not_apart_self (r : Route α) : ¬ r.Apart r := by
  intro h
  have hself := h rfl
  rw [Pattern.isAmbiguousWith_self] at hself
  cases hself

/-- A route with its handler as one that a router holds. -/
def hosted (route : Route Handler) : Route Endpoint := ⟨route.method, route.pattern, .handler route.endpoint⟩

end Route

namespace Router

theorem place_perm {α : Type} (new : Route α) : ∀ routes : List (Route α), (place new routes).Perm (new :: routes)
  | [] => List.Perm.refl _
  | r :: rest => by
    unfold place
    split
    · exact List.Perm.refl _
    · exact ((place_perm new rest).cons r).trans (List.Perm.swap new r rest)

/-- A route is put where the order needs it. -/
theorem place_before {α : Type} (new : Route α) :
    ∀ {routes : List (Route α)}, routes.Pairwise Route.Before → (place new routes).Pairwise Route.Before
  | [], _ => List.pairwise_singleton _ _
  | r :: rest, h => by
    obtain ⟨hr, hrest⟩ := List.pairwise_cons.1 h
    unfold place
    split
    · next hlater =>
      rw [Bool.and_eq_true, beq_iff_eq, beq_iff_eq, Pattern.compareSpecificity_eq_gt_iff] at hlater
      obtain ⟨hm, hlt⟩ := hlater
      -- the new route stands before `r`, and so before all that `r` stands before
      refine List.pairwise_cons.2 ⟨fun s hs hms => ?_, h⟩
      rcases List.mem_cons.1 hs with rfl | hs
      · exact le_of_lt hlt
      · exact le_trans (le_of_lt hlt) (hr s hs (hm.trans hms))
    · next hlater =>
      rw [Bool.and_eq_true, beq_iff_eq, beq_iff_eq, Pattern.compareSpecificity_eq_gt_iff] at hlater
      -- `r` stays where it is: the new route is not more specific
      refine List.pairwise_cons.2 ⟨fun s hs hms => ?_, place_before new hrest⟩
      rcases List.mem_cons.1 ((place_perm new rest).mem_iff.1 hs) with rfl | hs
      · exact le_of_not_gt fun hlt => hlater ⟨hms, hlt⟩
      · exact hr s hs hms

theorem rival?_eq_none_iff {α : Type} {method : Method} {pattern : Pattern} {routes : List (Route α)} :
    rival? method pattern routes = none ↔ ∀ r ∈ routes, r.method = method → r.pattern.isAmbiguousWith pattern = false := by
  simp [rival?, List.find?_eq_none]

theorem register_eq_ok_iff {method : Method} {text : String} {endpoint : Endpoint} {r r' : Router} :
    r.register method text endpoint = .ok r' ↔
      r.isSealed = false ∧ ∃ p, Pattern.parse text = .ok p ∧ rival? method p r.routes = none ∧
        { r with routes := place ⟨method, p, endpoint⟩ r.routes } = r' := by
  simp only [register, bind, Except.bind]
  cases hsealed : r.isSealed with
  | true => simp [throw, throwThe, MonadExceptOf.throw]
  | false =>
    cases hp : Pattern.parse text with
    | error e => simp [Except.mapError]
    | ok p =>
      cases hr : rival? method p r.routes with
      | some existing => simp [Except.mapError, hr, throw, throwThe, MonadExceptOf.throw]
      | none => simp [Except.mapError, pure, Except.pure, hr]

/-! ## Runs of calls -/

/-- Tries to register a handler. -/
def submit (c : Registration) (r : Router) : Except RouteError Router := r.register c.method c.pattern (.handler c.handler)

/-- The router after calls; one that fails changes nothing. -/
def registerAll : List Registration → Router → Router
  | [], r => r
  | c :: calls, r =>
    match r.submit c with
    | .ok r' => registerAll calls r'
    | .error _ => registerAll calls r

/-- The calls that succeed. -/
def accepted : List Registration → Router → List Registration
  | [], _ => []
  | c :: calls, r =>
    match r.submit c with
    | .ok r' => c :: accepted calls r'
    | .error _ => accepted calls r

/-- A router holds these routes, in order and without ambiguity. -/
structure Holds (r : Router) (routes : List (Route Handler)) : Prop where
  unsealed : r.isSealed = false
  perm : r.routes.Perm (routes.map Route.hosted)
  before : r.routes.Pairwise Route.Before
  apart : routes.Pairwise Route.Apart

theorem holds_empty : empty.Holds [] := ⟨rfl, List.Perm.refl _, List.Pairwise.nil, List.Pairwise.nil⟩

variable {r r' : Router} {routes routes' : List (Route Handler)} {c : Registration} {calls : List Registration}

theorem Holds.of_perm (h : r.Holds routes) (hperm : routes.Perm routes') : r.Holds routes' :=
  ⟨h.unsealed, h.perm.trans (hperm.map _), h.before, (hperm.pairwise_iff Route.Apart.symm).1 h.apart⟩

/-- A call succeeds if its pattern is one and no route that is held is ambiguous with it. -/
theorem Holds.submit_eq_ok_iff (h : r.Holds routes) :
    r.submit c = .ok r' ↔ ∃ route, c.route? = some route ∧ (∀ s ∈ routes, s.Apart route) ∧
      { r with routes := place route.hosted r.routes } = r' := by
  have hrival : ∀ p, rival? c.method p r.routes = none ↔ ∀ s ∈ routes, s.Apart ⟨c.method, p, c.handler⟩ := by
    intro p
    rw [rival?_eq_none_iff]
    simp only [h.perm.mem_iff, List.forall_mem_map]
    exact Iff.rfl
  rw [submit, register_eq_ok_iff]
  constructor
  · rintro ⟨-, p, hp, hr, rfl⟩
    exact ⟨⟨c.method, p, c.handler⟩, Registration.route?_eq_some_iff.2 ⟨hp, rfl, rfl⟩, (hrival p).1 hr, rfl⟩
  · rintro ⟨⟨method, p, handler⟩, hroute, hr, rfl⟩
    obtain ⟨hp, rfl, rfl⟩ := Registration.route?_eq_some_iff.1 hroute
    exact ⟨h.unsealed, p, hp, (hrival p).2 hr, rfl⟩

/-- A route that is put in its place is held with the others. -/
theorem Holds.place (h : r.Holds routes) {route : Route Handler} (hr : ∀ s ∈ routes, s.Apart route) :
    Holds { r with routes := place route.hosted r.routes } (route :: routes) where
  unsealed := h.unsealed
  perm := (place_perm _ _).trans (h.perm.cons _)
  before := place_before _ h.before
  apart := List.pairwise_cons.2 ⟨fun s hs => (hr s hs).symm, h.apart⟩

/-- A router holds the routes of the calls that have succeeded. -/
theorem Holds.registerAll : ∀ {calls : List Registration} {r : Router} {routes : List (Route Handler)}, r.Holds routes →
    (registerAll calls r).Holds ((accepted calls r).filterMap Registration.route? ++ routes)
  | [], _, _, h => h
  | c :: calls, r, routes, h => by
    unfold Router.registerAll accepted
    cases hs : r.submit c with
    | error e => exact Holds.registerAll h
    | ok r' =>
      obtain ⟨route, hroute, hapart, rfl⟩ := h.submit_eq_ok_iff.1 hs
      refine (Holds.registerAll (h.place hapart)).of_perm ?_
      rw [List.filterMap_cons_some hroute]
      exact List.perm_middle

theorem Holds.route?_of_accepted : ∀ {calls : List Registration} {r : Router} {routes : List (Route Handler)},
    r.Holds routes → ∀ c ∈ accepted calls r, ∃ route, c.route? = some route
  | [], _, _, _, c, hc => by cases hc
  | d :: calls, r, routes, h, c, hc => by
    unfold accepted at hc
    cases hs : r.submit d with
    | error e =>
      rw [hs] at hc
      exact Holds.route?_of_accepted h c hc
    | ok r' =>
      rw [hs] at hc
      obtain ⟨route, hroute, hapart, rfl⟩ := h.submit_eq_ok_iff.1 hs
      rcases List.mem_cons.1 hc with rfl | hc
      · exact ⟨route, hroute⟩
      · exact Holds.route?_of_accepted (h.place hapart) c hc

/-- Calls whose routes are not ambiguous all succeed. -/
theorem Holds.accepted_of_apart : ∀ {calls : List Registration} {r : Router} {routes : List (Route Handler)},
    r.Holds routes → (∀ c ∈ calls, ∃ route, c.route? = some route) →
    (calls.filterMap Registration.route? ++ routes).Pairwise Route.Apart → accepted calls r = calls
  | [], _, _, _, _, _ => rfl
  | c :: calls, r, routes, h, hcalls, hapart => by
    obtain ⟨route, hroute⟩ := hcalls c List.mem_cons_self
    rw [List.filterMap_cons_some hroute] at hapart
    obtain ⟨hfirst, -⟩ := List.pairwise_cons.1 hapart
    have hr : ∀ s ∈ routes, s.Apart route := fun s hs => (hfirst s (List.mem_append_right _ hs)).symm
    have hs := h.submit_eq_ok_iff.2 ⟨route, hroute, hr, rfl⟩
    have hlater := (List.perm_middle.pairwise_iff Route.Apart.symm).2 hapart
    unfold accepted
    rw [hs]
    show c :: accepted calls _ = c :: calls
    rw [Holds.accepted_of_apart (h.place hr) (fun d hd => hcalls d (List.mem_cons_of_mem _ hd)) hlater]

end Router

end Hypertext

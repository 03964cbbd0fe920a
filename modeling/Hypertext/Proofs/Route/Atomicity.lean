/-
Atomicity: a call to a router either succeeds or changes nothing that can be seen. Seen from outside, a router that is
built up in place is one that is replaced by each call that succeeds.
-/
import Hypertext.Proofs.Route.Building
import Mathlib.Data.List.Pairwise

namespace Hypertext

/-! ## Routes with other ends -/

/-- The same method and pattern with something else behind. -/
def Route.map {α β : Type} (f : α → β) (r : Route α) : Route β := ⟨r.method, r.pattern, f r.endpoint⟩

/-- Of routes that are not ambiguous only one has a method and a text. -/
theorem Route.eq_of_raw {α : Type} {routes : List (Route α)} (hapart : routes.Pairwise Route.Apart)
    (hparsed : ∀ r ∈ routes, Pattern.parse r.pattern.raw = .ok r.pattern) {a b : Route α} (ha : a ∈ routes)
    (hb : b ∈ routes) (hmethod : a.method = b.method) (hraw : a.pattern.raw = b.pattern.raw) : a = b := by
  by_contra hne
  have hp : a.pattern = b.pattern := by
    have hp := hparsed a ha
    rw [hraw, hparsed b hb] at hp
    exact (Except.ok.inj hp).symm
  -- routes of one method with one pattern are ambiguous
  have hsymm : Std.Symm (@Route.Apart α) := ⟨fun _ _ => Route.Apart.symm⟩
  have hambiguous := hapart.forall ha hb hne hmethod
  rw [hp, Pattern.isAmbiguousWith_self] at hambiguous
  cases hambiguous

namespace Router

variable {α β : Type}

theorem place_map (f : α → β) (new : Route α) :
    ∀ routes : List (Route α), (place new routes).map (Route.map f) = place (new.map f) (routes.map (Route.map f))
  | [] => rfl
  | r :: rest => by
    rw [place, List.map_cons, place, ← place_map f new rest]
    split <;> simp_all [Route.map]

/-- A new route is put among those of its method where it would be put without the others. -/
theorem filter_place (method : Method) (new : Route α) :
    ∀ routes : List (Route α), (place new routes).filter (·.method == method) =
      if new.method = method then place new (routes.filter (·.method == method))
      else routes.filter (·.method == method)
  | [] => by by_cases h : new.method = method <;> simp [place, h]
  | r :: rest => by
    have ih := filter_place method new rest
    by_cases hnew : new.method = method
    · rw [if_pos hnew] at ih ⊢
      subst hnew
      by_cases hr : r.method = new.method
      · rw [List.filter_cons_of_pos (by simpa using hr), place, place]
        split
        · rw [List.filter_cons_of_pos (by simp), List.filter_cons_of_pos (by simpa using hr)]
        · rw [List.filter_cons_of_pos (by simpa using hr), ih]
      · rw [List.filter_cons_of_neg (by simpa using hr), place, if_neg (by simp [hr]),
          List.filter_cons_of_neg (by simpa using hr), ih]
    · rw [if_neg hnew] at ih ⊢
      rw [place]
      split
      · rw [List.filter_cons_of_neg (by simpa using hnew)]
      · rw [List.filter_cons, List.filter_cons, ih]

theorem rival?_filter (method : Method) (p : Pattern) (routes : List (Route α)) :
    rival? method p routes = (routes.filter (·.method == method)).find? fun r => r.pattern.isAmbiguousWith p := by
  rw [rival?, List.find?_filter]
  congr 1
  funext r
  by_cases hr : r.method = method <;> simp [hr]

theorem register_eq (method : Method) (text : String) (endpoint : Endpoint) (r : Router) :
    r.register method text endpoint =
      if r.isSealed then .error .isSealed
      else match Pattern.parse text with
        | .error e => .error (.invalidPattern text e)
        | .ok p => match rival? method p r.routes with
          | some rival => .error (.conflict method text rival.pattern.raw)
          | none => .ok { r with routes := place ⟨method, p, endpoint⟩ r.routes } := by
  cases hsealed : r.isSealed with
  | true => simp [register, hsealed, throw, throwThe, MonadExceptOf.throw, bind, Except.bind]
  | false =>
    cases hp : Pattern.parse text with
    | error e => simp [register, hsealed, hp, Except.mapError, bind, Except.bind]
    | ok p =>
      cases hr : rival? method p r.routes <;>
        simp [register, hsealed, hp, hr, Except.mapError, bind, Except.bind, pure, Except.pure, throw, throwThe,
          MonadExceptOf.throw]

end Router

/-! ## Documents -/

namespace ApiDocument

variable {α β : Type}

/-- What routes are listed by. -/
def key (r : Route α) : String ×ₗ (Nat ×ₗ String) := toLex (r.pattern.raw, r.method.key)

theorem before_iff (a b : Route α) : before a b = true ↔ key a ≤ key b := by
  rw [Prod.Lex.le_iff]
  by_cases h : a.pattern.raw = b.pattern.raw
  · simp [before, key, h, Method.le_iff]
  · simp [before, key, h]

theorem before_trans (a b c : Route α) (h : before a b = true) (h' : before b c = true) : before a c = true := by
  rw [before_iff] at h h' ⊢
  exact le_trans h h'

theorem before_total (a b : Route α) : (before a b || before b a) = true := by
  rw [Bool.or_eq_true, before_iff, before_iff]
  exact le_total _ _

/-- A document lists routes by method and pattern. -/
theorem describe_map (f : α → β) (title version path : String) (routes : List (Route α)) :
    describe title version path (routes.map (Route.map f)) = describe title version path routes := by
  have hsort : ((routes.map (Route.map f)).filter fun r => !(r.method == .get && r.pattern.raw == path)).mergeSort before =
      ((routes.filter fun r => !(r.method == .get && r.pattern.raw == path)).mergeSort before).map (Route.map f) := by
    rw [List.filter_map, List.map_mergeSort fun a _ b _ => ?_]
    · rfl
    · rfl
  simp only [describe, hsort, List.foldl_map]
  rfl

/-- A document does not depend on the order of routes that are not ambiguous. -/
theorem describe_perm {routes routes' : List (Route α)} (h : routes.Perm routes') (hapart : routes.Pairwise Route.Apart)
    (hparsed : ∀ r ∈ routes, Pattern.parse r.pattern.raw = .ok r.pattern)
    (title version path : String) : describe title version path routes = describe title version path routes' := by
  have hsame : ∀ a ∈ routes, ∀ b ∈ routes, key a = key b → a = b := by
    intro a ha b hb hkey
    obtain ⟨hraw, hmethod⟩ := Prod.mk.inj hkey
    exact Route.eq_of_raw hapart hparsed ha hb (Method.key_injective hmethod) hraw
  have hsort : (routes.filter fun r => !(r.method == .get && r.pattern.raw == path)).mergeSort before =
      (routes'.filter fun r => !(r.method == .get && r.pattern.raw == path)).mergeSort before := by
    refine List.Perm.eq_of_pairwise (fun a b ha hb hab hba => ?_) (List.pairwise_mergeSort before_trans before_total _)
      (List.pairwise_mergeSort before_trans before_total _) ?_
    · rw [before_iff] at hab hba
      refine hsame a ?_ b ?_ (le_antisymm hab hba)
      · exact (List.mem_filter.1 (List.mem_mergeSort.1 ha)).1
      · exact h.mem_iff.2 (List.mem_filter.1 (List.mem_mergeSort.1 hb)).1
    · exact (List.mergeSort_perm _ _).trans ((h.filter _).trans (List.mergeSort_perm _ _).symm)
  simp only [describe, hsort]

end ApiDocument

/-! ## Routers that agree -/

namespace Builder

variable {f f' : Destination → Endpoint} {b b' : Builder} {r r' : Router} {method : Method}

/-- What a route leads to, when these documents are pending. -/
def reveal (pending : List PendingDocument) : Destination → Endpoint
  | .handler h => .handler h
  | .page number =>
    let d := pending.find? (·.page == number)
    .document ((d.map (·.title)).getD "") ((d.map (·.version)).getD "")

/-- A router that is built up in place and one that is replaced have the same routes in the same order. -/
structure Agrees (f : Destination → Endpoint) (b : Builder) (r : Router) : Prop where
  isSealed : b.isSealed = r.isSealed
  routesOf : ∀ method, (b.routesOf method).map (Route.map f) = r.routes.filter (·.method == method)
  perm : (b.routes.map (Route.map f)).Perm r.routes

theorem Agrees.congr (h : Agrees f b r) (hlaid : b.Laid) (hf : ∀ route ∈ b.routes, f route.endpoint = f' route.endpoint) :
    Agrees f' b r := by
  have hmap : ∀ routes : List (Route Destination), (∀ route ∈ routes, route ∈ b.routes) →
      routes.map (Route.map f') = routes.map (Route.map f) := by
    intro routes hsub
    refine List.map_congr_left fun route hroute => ?_
    rw [Route.map, Route.map, hf route (hsub route hroute)]
  constructor
  case isSealed => exact h.isSealed
  case routesOf =>
    intro method
    rw [hmap, h.routesOf]
    intro route hroute
    have hm := (hlaid.sound_routesOf method).own route hroute
    rw [hlaid.mem_routes_iff, hm]
    exact hroute
  case perm =>
    rw [hmap _ fun _ hroute => hroute]
    exact h.perm

/-- Registering a route ends alike in both. -/
theorem Agrees.register (h : Agrees f b r) (hlaid : b.Laid) {text : String} {goal : Destination}
    {result : Except RouteError Unit} (hr : Registered method text goal b result b') :
    match result with
    | .ok _ => ∃ r', r.register method text (f goal) = .ok r' ∧ Agrees f b' r'
    | .error e => r.register method text (f goal) = .error e := by
  have hrival : ∀ p, Router.rival? method p r.routes =
      ((b.routesOf method).find? fun route => route.pattern.isAmbiguousWith p).map (Route.map f) := by
    intro p
    rw [Router.rival?_filter, ← h.routesOf, List.find?_map]
    rfl
  rw [Router.register_eq, ← h.isSealed]
  cases hr with
  | refused hsealed => rw [if_pos hsealed]
  | invalid e hopen hp => simp [hopen, hp]
  | conflict p rival hopen hp hr => simp [hopen, hp, hrival, hr, Route.map]
  | accepted p hopen hp hr =>
    refine ⟨{ r with routes := Router.place (Route.map f ⟨method, p, goal⟩) r.routes }, ?_, ?_⟩
    · rw [if_neg (by simp [hopen])]
      simp [hp, hrival, hr, Route.map, h.isSealed]
    · constructor
      case isSealed => simpa [insert] using h.isSealed
      case routesOf =>
        intro method'
        have hown : ∀ route ∈ b.routesOf method, route.method = method := (hlaid.sound_routesOf method).own
        rw [hlaid.routesOf_insert, Router.filter_place]
        by_cases hm : method = method'
        · subst hm
          have hsame : (Route.map f ⟨method, p, goal⟩).method = method := rfl
          rw [if_pos rfl, if_pos hsame, insertRoute_eq_place hown, Router.place_map, h.routesOf]
        · rw [if_neg hm, if_neg (show (Route.map f ⟨method, p, goal⟩).method ≠ method' from hm), h.routesOf]
      case perm =>
        refine ((hlaid.routes_insert ⟨method, p, goal⟩).map _).trans ?_
        rw [List.map_cons]
        exact (h.perm.cons _).trans (Router.place_perm _ _).symm

/-- What comes of a try: the next router, or the same one. -/
def tried (r : Router) : Except RouteError Router → Except RouteError (Option Table) × Router
  | .ok next => (.ok none, next)
  | .error e => (.error e, r)

/-- The outcome of a call to a router that is replaced by it, and the router after it. -/
def submit (r : Router) : Call → Except RouteError (Option Table) × Router
  | .register method pattern h => tried r (r.register method pattern (.handler h))
  | .serveAssets base entries => tried r (r.serveAssets base entries)
  | .serveDirectory base d => tried r (r.serveDirectory base d)
  | .serveDocument path title version => tried r (r.serveDocument path title version)
  | .sealing => (.ok (some r.toTable.2), r.toTable.1)

def submitAll (calls : List Call) (r : Router) : Router := calls.foldl (fun r c => (submit r c).2) r

/-- Outcomes that look alike: the same error, or tables with the same routes. -/
inductive Alike (pages : List (Option Bytes)) : Except RouteError (Option Listing) → Except RouteError (Option Table) → Prop
  | failed (e : RouteError) : Alike pages (.error e) (.error e)
  | added : Alike pages (.ok none) (.ok none)
  | made {listing : Listing} {table : Table} (h : (listing.table pages).routes.Perm table.routes) :
      Alike pages (.ok (some listing)) (.ok (some table))

theorem submit_of_hosted {c : Call} {text : String} {h : Handler} (hc : c.hosted? = some (method, text, h)) (r : Router) :
    submit r c = tried r (r.register method text (.handler h)) := by
  cases c with
  | serveDocument path title version => cases hc
  | sealing => cases hc
  | _ =>
    cases hc
    rfl

/-- Trying to register a route ends alike in both, with routers that agree. -/
theorem Agrees.tried (h : Agrees f b r) (hlaid : b.Laid) {text : String} {goal : Destination}
    {result : Except RouteError Unit} (hr : Registered method text goal b result b') :
    Alike b'.pages (result.map fun _ => none) (Builder.tried r (r.register method text (f goal))).1 ∧
      Agrees f b' (Builder.tried r (r.register method text (f goal))).2 := by
  have hregister := h.register hlaid hr
  cases result with
  | error e =>
    rw [hregister, hr.eq_of_error]
    exact ⟨.failed e, h⟩
  | ok _ =>
    obtain ⟨r', hok, hagrees⟩ := hregister
    rw [hok]
    exact ⟨.added, hagrees⟩

/-- A document that is added does not change what the others are. -/
theorem reveal_append {pending : List PendingDocument} {d : PendingDocument} {goal : Destination}
    (h : ∀ number, goal = .page number → ∃ d ∈ pending, d.page = number) :
    reveal pending goal = reveal (pending ++ [d]) goal := by
  cases goal with
  | handler h => rfl
  | page number =>
    obtain ⟨d', hd, hpage⟩ := h number rfl
    obtain ⟨first, hfirst⟩ : ∃ first, pending.find? (·.page == number) = some first := by
      rw [← Option.isSome_iff_exists, List.find?_isSome]
      exact ⟨d', hd, by simpa using hpage⟩
    rw [reveal, reveal, List.find?_append, hfirst]
    rfl

/-- A route to a page leads to the document that will be written on it. -/
theorem reveal_of_mem {pending : List PendingDocument} {d : PendingDocument} (hdistinct : (pending.map (·.page)).Nodup)
    (hd : d ∈ pending) : reveal pending (.page d.page) = .document d.title d.version := by
  obtain ⟨first, hfirst⟩ : ∃ first, pending.find? (·.page == d.page) = some first := by
    rw [← Option.isSome_iff_exists, List.find?_isSome]
    exact ⟨d, hd, by simp⟩
  have hpage : first.page = d.page := by simpa using List.find?_some hfirst
  have hsame : first = d := List.inj_on_of_nodup_map hdistinct (List.mem_of_find?_eq_some hfirst) hd hpage
  rw [reveal, hfirst, hsame]
  rfl

theorem reveal_last {pending : List PendingDocument} {d : PendingDocument} (h : ∀ d' ∈ pending, d'.page ≠ d.page) :
    reveal (pending ++ [d]) (.page d.page) = .document d.title d.version := by
  have hnone : pending.find? (·.page == d.page) = none := by
    rw [List.find?_eq_none]
    exact fun d' hd' => by simpa using h d' hd'
  rw [reveal, List.find?_append, hnone]
  simp

/-! ## Sealed routers -/

/-- Routes of different branches have different methods. -/
theorem Laid.pairwise (h : b.Laid) {R : Route Destination → Route Destination → Prop}
    (hR : ∀ r s, r.method ≠ s.method → R r s) (hbranch : ∀ branch ∈ b.branches, branch.routes.Pairwise R) :
    b.routes.Pairwise R := by
  refine List.pairwise_flatMap.2 ⟨hbranch, (List.pairwise_map.1 h.methods).imp_of_mem fun hc hd hne r hr s hs => hR r s ?_⟩
  rw [(h.sound _ hc).own r hr, (h.sound _ hd).own s hs]
  exact hne

theorem Laid.before (h : b.Laid) : b.routes.Pairwise Route.Before :=
  h.pairwise (fun _ _ hne heq => absurd heq hne) fun branch hb => (h.sound branch hb).before

theorem Laid.apart (h : b.Laid) : b.routes.Pairwise Route.Apart :=
  h.pairwise (fun _ _ hne heq => absurd heq hne) fun branch hb => (h.sound branch hb).apart

theorem Laid.parsed (h : b.Laid) : ∀ r ∈ b.routes, Pattern.parse r.pattern.raw = .ok r.pattern := by
  intro r hr
  obtain ⟨branch, hb, hr⟩ := List.mem_flatMap.1 hr
  exact (h.sound branch hb).parsed r hr

theorem Laid.searchable (h : b.Laid) (pages : List (Option Bytes)) : (Listing.table pages ⟨b.branches⟩).Searchable := by
  constructor
  case before => exact List.pairwise_map.2 h.before
  case apart => exact List.pairwise_map.2 h.apart
  case wildcardLast =>
    intro route hroute
    obtain ⟨r, hr, rfl⟩ := List.mem_map.1 hroute
    exact Pattern.parse_wildcardLast (h.parsed r hr)

/-- Routes are in the order of specificity if those of each method are. -/
theorem before_of_filter {routes : List (Route Endpoint)}
    (h : ∀ method, (routes.filter (·.method == method)).Pairwise Route.Before) : routes.Pairwise Route.Before := by
  induction routes with
  | nil => exact List.Pairwise.nil
  | cons first rest ih =>
    refine List.pairwise_cons.2 ⟨fun s hs hm => ?_, ih fun method => (h method).sublist ?_⟩
    · have hfirst := h first.method
      rw [List.filter_cons_of_pos (by simp), List.pairwise_cons] at hfirst
      exact hfirst.1 s (List.mem_filter.2 ⟨hs, by simp [hm]⟩) hm
    · exact (List.sublist_cons_self first rest).filter _

theorem Agrees.before (h : Agrees (reveal b.pending) b r) (hs : b.Sound) :
    r.toTable.2.routes.Pairwise Route.Before := by
  refine List.pairwise_map.2 (before_of_filter fun method => ?_)
  rw [← h.routesOf]
  exact List.pairwise_map.2 (hs.toLaid.sound_routesOf method).before

/-- The routes, with what they lead to. -/
def revealed (b : Builder) : List (Route Endpoint) := b.routes.map (Route.map (reveal b.pending))

/-- The handler of a route of a router that has been sealed: its document describes all routes, in whatever order they
are given. -/
theorem Sound.handlerOf_emptied (hs : b.Sound) {routes : List (Route Endpoint)} (hperm : b.revealed.Perm routes)
    {route : Route Destination} (hroute : route ∈ b.routes) :
    handlerOf b.emptied.pages route.endpoint = Router.finish routes (route.map (reveal b.pending)) := by
  obtain ⟨method, pattern, endpoint⟩ := route
  cases endpoint with
  | handler handler => rfl
  | page number =>
    obtain ⟨d, hd, rfl, hpath⟩ := hs.promised _ hroute number rfl
    have htext : ApiDocument.describe d.title d.version d.path b.routes =
        ApiDocument.describe d.title d.version pattern.raw routes := by
      rw [hpath, ← ApiDocument.describe_map (reveal b.pending)]
      refine ApiDocument.describe_perm hperm (List.pairwise_map.2 hs.toLaid.apart) (fun s hmem => ?_) _ _ _
      obtain ⟨other, hother, rfl⟩ := List.mem_map.1 hmem
      exact hs.toLaid.parsed other hother
    have hpage : b.emptied.pages[d.page]? = some (some (textOf b.routes d)) := publish_eq_text hs.distinct hs.blank hd
    funext context
    simp [handlerOf, Handler.immediate, hpage, textOf, htext, Router.finish, Route.map, reveal_of_mem hs.distinct hd,
      Response.ofJson]

/-- A sealed router has the table that a router with the same routes makes. -/
theorem Sound.table_perm (hs : b.Sound) {routes : List (Route Endpoint)} (hperm : b.revealed.Perm routes) :
    (Listing.table b.emptied.pages ⟨b.branches⟩).routes.Perm (Router.toTable ⟨routes, false⟩).2.routes := by
  have hroutes : (Listing.table b.emptied.pages ⟨b.branches⟩).routes =
      b.revealed.map fun route => ⟨route.method, route.pattern, Router.finish routes route⟩ := by
    rw [revealed, List.map_map]
    refine List.map_congr_left fun route hroute => ?_
    rw [hs.handlerOf_emptied hperm hroute]
    rfl
  rw [hroutes]
  exact hperm.map _

/-- A sealed router has the table that it would have if it had been replaced by each call. -/
theorem Agrees.table_perm (h : Agrees (reveal b.pending) b r) (hs : b.Sound) :
    (Listing.table b.emptied.pages ⟨b.branches⟩).routes.Perm r.toTable.2.routes := hs.table_perm h.perm

/-- Routers agree on what their routes lead to when a document is added to which no route leads. -/
theorem Agrees.withPage (h : Agrees (reveal b.pending) b r) (hs : b.Sound) (d : PendingDocument) :
    Agrees (reveal (b.pending ++ [d])) b.withPage r := by
  have hagrees : Agrees (reveal (b.pending ++ [d])) b r := by
    refine h.congr hs.toLaid fun route hroute => reveal_append fun number hnumber => ?_
    obtain ⟨d', hd, hpage, -⟩ := hs.promised route hroute number hnumber
    exact ⟨d', hd, hpage⟩
  exact ⟨hagrees.isSealed, hagrees.routesOf, hagrees.perm⟩

/-- Each call ends alike in routers that agree, and leaves them in agreement. -/
theorem Agrees.change (h : Agrees (reveal b.pending) b r) (hs : b.Sound) {c : Call}
    {result : Except RouteError (Option Listing)} (hc : Change b c result b') :
    Alike b'.pages result (submit r c).1 ∧ Agrees (reveal b'.pending) b' (submit r c).2 := by
  cases hc with
  | hosted hhosted hr =>
    obtain ⟨halike, hagrees⟩ := h.tried hs.toLaid hr
    rw [submit_of_hosted hhosted]
    have hpending : b'.pending = b.pending := hr.pending
    rw [hpending]
    exact ⟨halike, hagrees⟩
  | promised hr =>
    rename_i path title version next
    have hnew : ∀ d ∈ b.pending, d.page ≠ b.pages.length :=
      fun d hd => Nat.ne_of_lt (List.getElem?_eq_some_iff.1 (hs.blank d hd)).1
    have htried := (h.withPage hs ⟨path, title, version, b.pages.length⟩).tried hs.withPage.toLaid hr
    rw [reveal_last hnew] at htried
    have hpending : next.pending = b.pending := hr.pending
    obtain ⟨halike, hagrees⟩ := htried
    refine ⟨halike, ?_⟩
    rw [withPending, hpending]
    exact ⟨hagrees.isSealed, hagrees.routesOf, hagrees.perm⟩
  | unpromised hr =>
    rename_i path title version e
    have hnew : ∀ d ∈ b.pending, d.page ≠ b.pages.length :=
      fun d hd => Nat.ne_of_lt (List.getElem?_eq_some_iff.1 (hs.blank d hd)).1
    have herror : r.serveDocument path title version = .error e := by
      have hregister := (h.withPage hs ⟨path, title, version, b.pages.length⟩).register hs.withPage.toLaid hr
      rwa [reveal_last hnew] at hregister
    rw [submit, herror, hr.eq_of_error]
    exact ⟨.failed e, h.isSealed, h.routesOf, h.perm⟩
  | emptied =>
    refine ⟨.made (h.table_perm hs), ?_⟩
    exact ⟨rfl, fun _ => rfl, List.Perm.nil⟩

theorem agrees_empty : Agrees (reveal empty.pending) empty Router.empty := ⟨rfl, fun _ => rfl, List.Perm.nil⟩

theorem Agrees.performAll (h : Agrees (reveal b.pending) b r) (hs : b.Sound) (calls : List Call) :
    Agrees (reveal (performAll calls b).pending) (performAll calls b) (submitAll calls r) := by
  induction calls generalizing b r with
  | nil => exact h
  | cons c calls ih =>
    have hc := hs.toLaid.change (c := c) rfl
    exact ih (h.change hs hc).2 (hs.change hc)

/-! ## What can be seen -/

/-- The table that sealing the router would give. -/
def table (b : Builder) : Table :=
  match perform .sealing b with
  | (.ok (some listing), next) => listing.table next.pages
  | _ => .empty

theorem table_eq (b : Builder) : b.table = Listing.table b.emptied.pages ⟨b.branches⟩ := rfl

/-- Routers that agree with the same one have tables in which the same is found. -/
theorem Agrees.find_congr (h : Agrees (reveal b.pending) b r) (hs : b.Sound) (h' : Agrees (reveal b'.pending) b' r)
    (hs' : b'.Sound) (method : Method) (path : String) :
    b'.table.find method path = b.table.find method path ∧ b'.table.allowed path = b.table.allowed path := by
  have hperm : b'.table.routes.Perm b.table.routes := (h'.table_perm hs').trans (h.table_perm hs).symm
  rw [table_eq, table_eq] at hperm ⊢
  exact ⟨(hs'.toLaid.searchable _).find_congr (hs.toLaid.searchable _) hperm method path, Table.allowed_congr hperm path⟩

/-- A table is made of what is on the pages of its routes. -/
theorem table_congr {pages pages' : List (Option Bytes)}
    (h : ∀ route ∈ b.routes, ∀ number, route.endpoint = .page number → pages[number]? = pages'[number]?) :
    Listing.table pages ⟨b.branches⟩ = Listing.table pages' ⟨b.branches⟩ := by
  refine congrArg Table.mk (List.map_congr_left fun route hroute => ?_)
  obtain ⟨method, pattern, endpoint⟩ := route
  cases endpoint with
  | handler handler => rfl
  | page number =>
    have hpage := h _ hroute number rfl
    simp only [handlerOf, hpage]

/-- The page of each route of a router that is sealed is written. -/
theorem Sound.page_emptied (hs : b.Sound) {route : Route Destination} (hroute : route ∈ b.routes) {number : Nat}
    (hnumber : route.endpoint = .page number) :
    ∃ d ∈ b.pending, d.page = number ∧ b.emptied.pages[number]? = some (some (textOf b.routes d)) := by
  obtain ⟨d, hd, rfl, -⟩ := hs.promised route hroute number hnumber
  exact ⟨d, hd, rfl, publish_eq_text hs.distinct hs.blank hd⟩

/-- A page that nobody writes on is not seen in the table. -/
theorem Sound.table_withPage (hs : b.Sound) : b.withPage.table = b.table := by
  rw [table_eq, table_eq]
  refine table_congr fun route hroute number hnumber => ?_
  obtain ⟨d, hd, rfl, hpage⟩ := hs.page_emptied hroute hnumber
  rw [hpage]
  exact publish_eq_text hs.withPage.distinct hs.withPage.blank hd

/-- The routes of a method: they are of no other one, the most specific ones come first, no two are ambiguous, and each
captures under different names. -/
structure Ordered (method : Method) (routes : List (Route Destination)) : Prop where
  own : ∀ r ∈ routes, r.method = method
  sorted : routes.Pairwise fun r s => r.pattern.compareSpecificity s.pattern ≠ .gt
  apart : routes.Pairwise fun r s => r.pattern.isAmbiguousWith s.pattern = false
  names : ∀ r ∈ routes, r.pattern.names.Nodup

/-- Nothing that can be seen of a router is different: neither its routes and documents, nor the table it would be sealed
to now or after any other calls. -/
structure Unchanged (b b' : Builder) : Prop where
  size : b'.size = b.size
  branches : b'.branches = b.branches
  pending : b'.pending = b.pending
  isSealed : b'.isSealed = b.isSealed
  table : b'.table = b.table
  later : ∀ calls method path,
    (performAll calls b').table.find method path = (performAll calls b).table.find method path ∧
      (performAll calls b').table.allowed path = (performAll calls b).table.allowed path

theorem Sound.ordered (hs : b.Sound) (method : Method) : Ordered method (b.routesOf method) := by
  have hbranch := hs.toLaid.sound_routesOf method
  constructor
  case own => exact hbranch.own
  case sorted =>
    refine hbranch.before.imp_of_mem fun {r s} hr hs' hbefore hgt => ?_
    have hle := hbefore ((hbranch.own r hr).trans (hbranch.own s hs').symm)
    exact absurd (Pattern.compareSpecificity_eq_gt_iff.1 hgt) (not_lt_of_ge hle)
  case apart =>
    refine hbranch.apart.imp_of_mem fun {r s} hr hs' hapart => ?_
    exact hapart ((hbranch.own r hr).trans (hbranch.own s hs').symm)
  case names => exact fun r hr => Pattern.parse_names_nodup (hbranch.parsed r hr)

theorem Sound.unchanged (hs : b.Sound) (h : Agrees (reveal b.pending) b r) {c : Call} {e : RouteError}
    (hrun : perform c b = (.error e, b')) : Unchanged b b' := by
  have hchange := hs.toLaid.change hrun
  have hagrees : Agrees (reveal b'.pending) b' r := by
    rcases hchange.of_error with rfl | rfl
    · exact h
    · exact ⟨h.isSealed, h.routesOf, h.perm⟩
  have hsound := hs.change hchange
  have hlater : ∀ calls method path,
      (Builder.performAll calls b').table.find method path = (Builder.performAll calls b).table.find method path ∧
        (Builder.performAll calls b').table.allowed path = (Builder.performAll calls b).table.allowed path :=
    fun calls => (h.performAll hs calls).find_congr (hs.performAll calls) (hagrees.performAll hsound calls)
      (hsound.performAll calls)
  rcases hchange.of_error with rfl | rfl
  · exact ⟨rfl, rfl, rfl, rfl, rfl, hlater⟩
  · exact ⟨rfl, rfl, rfl, rfl, hs.table_withPage, hlater⟩

/-- Seen from outside, a router that is built up in place is one that is replaced by each call that succeeds: calls end
alike, and the same is found in the tables. -/
theorem performAll_agrees (calls : List Call) :
    (∀ c, Alike (perform c (performAll calls empty)).2.pages (perform c (performAll calls empty)).1
      (submit (submitAll calls Router.empty) c).1) ∧
    (performAll calls empty).size = (submitAll calls Router.empty).size ∧
    ∀ method path,
      (performAll calls empty).table.find method path = (submitAll calls Router.empty).toTable.2.find method path ∧
        (performAll calls empty).table.allowed path = (submitAll calls Router.empty).toTable.2.allowed path := by
  have hs : (performAll calls empty).Sound := sound_empty.performAll calls
  have h := agrees_empty.performAll sound_empty calls
  have hperm : (performAll calls empty).table.routes.Perm _ := h.table_perm hs
  have hsearchable : (performAll calls empty).table.Searchable := hs.toLaid.searchable _
  refine ⟨fun c => (h.change hs (hs.toLaid.change rfl)).1, ?_, fun method path => ⟨?_, Table.allowed_congr hperm path⟩⟩
  · rw [size_eq, Router.size, ← h.perm.length_eq, List.length_map]
  · exact hsearchable.find_congr (hsearchable.of_perm (h.before hs) hperm) hperm method path

/-- After any calls, those that failed included, the routes of each method are in order. A call that fails changes nothing
that can be seen. A table that has been made is what it was when it was made, whatever is called afterwards. -/
theorem performAll_atomic (calls : List Call) :
    ((performAll calls empty).branches.map (·.method)).Nodup ∧
    (∀ method, Ordered method ((performAll calls empty).routesOf method)) ∧
    (∀ c e b, perform c (performAll calls empty) = (.error e, b) → Unchanged (performAll calls empty) b) ∧
    ∀ listing b, perform .sealing (performAll calls empty) = (.ok (some listing), b) →
      ∀ later, listing.table (performAll later b).pages = listing.table b.pages := by
  have hs : (performAll calls empty).Sound := sound_empty.performAll calls
  have hagrees := agrees_empty.performAll sound_empty calls
  refine ⟨hs.methods, hs.ordered, fun c e b hrun => hs.unchanged hagrees hrun, fun listing b hrun later => ?_⟩
  cases hrun
  refine table_congr fun route hroute number hnumber => ?_
  obtain ⟨d, -, -, hpage⟩ := hs.page_emptied hroute hnumber
  exact ((sound_emptied _).kept later number _ hpage).trans hpage.symm

/-- A document that was refused leaves a blank page behind that is not seen, and a table stays what it was. -/
theorem performAll_atomic_of_refused :
    perform (.serveDocument "/a/:z" "A" "1")
        (performAll [.register .get "/a/:x" fun _ => ⟨0, .panicked none⟩, .serveDocument "/api" "B" "2"] empty) =
      (.error (.conflict .get "/a/:z" "/a/:x"),
        (performAll [.register .get "/a/:x" fun _ => ⟨0, .panicked none⟩, .serveDocument "/api" "B" "2"] empty).withPage) ∧
    Unchanged (performAll [.register .get "/a/:x" fun _ => ⟨0, .panicked none⟩, .serveDocument "/api" "B" "2"] empty)
      (performAll [.register .get "/a/:x" fun _ => ⟨0, .panicked none⟩, .serveDocument "/api" "B" "2"] empty).withPage ∧
    ∃ listing b, perform .sealing
        (performAll [.register .get "/a/:x" fun _ => ⟨0, .panicked none⟩, .serveDocument "/api" "B" "2"] empty) =
          (.ok (some listing), b) ∧
      listing.table (performAll [.serveDocument "/b" "C" "3", .sealing] b).pages = listing.table b.pages := by
  have hrefused : perform (.serveDocument "/a/:z" "A" "1")
      (performAll [.register .get "/a/:x" fun _ => ⟨0, .panicked none⟩, .serveDocument "/api" "B" "2"] empty) =
      (.error (.conflict .get "/a/:z" "/a/:x"), (performAll [.register .get "/a/:x" fun _ => ⟨0, .panicked none⟩,
        .serveDocument "/api" "B" "2"] empty).withPage) := by rfl
  have hatomic := performAll_atomic [.register .get "/a/:x" fun _ => ⟨0, .panicked none⟩, .serveDocument "/api" "B" "2"]
  exact ⟨hrefused, hatomic.2.2.1 _ _ _ hrefused, _, _, rfl, hatomic.2.2.2 _ _ rfl _⟩

end Builder

end Hypertext

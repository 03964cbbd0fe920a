/-
Sealing: routers all of whose calls have succeeded. Whether calls succeed together does not depend on their order: each
of them has a route, and no two of these are ambiguous. What is served once the router is sealed depends on these routes
alone, the documents included: neither the order of the calls shows, nor that in which the branches are gone through.
-/
import Hypertext.Proofs.Route.Atomicity

namespace Hypertext

namespace Builder

variable {b b' : Builder} {c : Call} {calls calls' : List Call} {t t' : Table}

/-! ## Routes of calls -/

/-- What a call registers: a method, the text of a pattern, and what this leads to. -/
def Call.goal? : Call → Option (Method × String × Endpoint)
  | .serveDocument path title version => some (.get, path, .document title version)
  | c => c.hosted?.map fun goal => (goal.1, goal.2.1, .handler goal.2.2)

/-- The route that a call adds, if its pattern is one. -/
def Call.route? (c : Call) : Option (Route Endpoint) :=
  c.goal?.bind fun goal => (Pattern.parse goal.2.1).toOption.map fun p => ⟨goal.1, p, goal.2.2⟩

theorem Call.route?_eq_some_iff {method : Method} {text : String} {endpoint : Endpoint}
    (hc : c.goal? = some (method, text, endpoint)) {route : Route Endpoint} :
    c.route? = some route ↔ ∃ p, Pattern.parse text = .ok p ∧ route = ⟨method, p, endpoint⟩ := by
  rw [route?, hc, Option.bind_some]
  cases Pattern.parse text with
  | error e => simp [Except.toOption]
  | ok p => simp [Except.toOption, eq_comm]

theorem Call.parsed_of_route? {route : Route Endpoint} (h : c.route? = some route) :
    Pattern.parse route.pattern.raw = .ok route.pattern := by
  obtain ⟨⟨method, text, endpoint⟩, hc, -⟩ := Option.bind_eq_some_iff.1 h
  obtain ⟨p, hp, rfl⟩ := (route?_eq_some_iff hc).1 h
  rw [(Pattern.parse_eq_ok_iff.1 hp).2.2]
  exact hp

theorem Call.goal?_of_hosted {method : Method} {text : String} {h : Handler}
    (hc : c.hosted? = some (method, text, h)) : c.goal? = some (method, text, .handler h) := by
  cases c <;> simp_all [goal?, hosted?]

/-! ## Calls that succeed -/

/-- The calls succeed one after another, and none of them seals the router. -/
def Accepted : List Call → Builder → Prop
  | [], _ => True
  | c :: calls, b => (perform c b).1 = .ok none ∧ Accepted calls (perform c b).2

theorem Laid.register_eq_ok_iff (h : b.Laid) {method : Method} {text : String} {goal : Destination} :
    (runOn (Builder.register method text goal) b).1 = .ok () ↔
      b.isSealed = false ∧ ∃ p, Pattern.parse text = .ok p ∧ ∀ r ∈ b.routesOf method, r.pattern.isAmbiguousWith p = false := by
  rw [runOn_register, routesOf_openBranch h]
  cases b.isSealed with
  | true => simp
  | false =>
    cases hp : Pattern.parse text with
    | error e => simp
    | ok p =>
      cases hr : (b.routesOf method).find? fun r => r.pattern.isAmbiguousWith p with
      | some rival =>
        have hrival : rival.pattern.isAmbiguousWith p = true := by simpa using List.find?_some hr
        simp only [Bool.false_eq_true, if_false, hr, reduceCtorEq, true_and, Except.ok.injEq, false_iff]
        rintro ⟨p', rfl, hnone⟩
        rw [hnone rival (List.mem_of_find?_eq_some hr)] at hrival
        cases hrival
      | none => simpa [hr] using List.find?_eq_none.1 hr

/-- No route of a method is ambiguous with a pattern exactly if all routes stand apart from the one with both. -/
theorem Laid.apart_iff (h : b.Laid) {method : Method} {p : Pattern} {endpoint : Endpoint} :
    (∀ r ∈ b.routesOf method, r.pattern.isAmbiguousWith p = false) ↔
      ∀ s ∈ b.revealed, s.Apart ⟨method, p, endpoint⟩ := by
  rw [revealed, List.forall_mem_map]
  constructor
  · intro hr r hmem hm
    obtain rfl : r.method = method := hm
    exact hr r (h.mem_routes_iff.1 hmem)
  · intro hr r hmem
    have hm := (h.sound_routesOf method).own r hmem
    exact hr r (h.mem_routes_iff.2 (hm.symm ▸ hmem)) hm

/-- A call that adds a route succeeds exactly if no route is ambiguous with its own. -/
theorem Sound.perform_eq_ok_iff (hs : b.Sound) (hopen : b.isSealed = false) :
    (perform c b).1 = .ok none ↔ ∃ route, c.route? = some route ∧ ∀ s ∈ b.revealed, s.Apart route := by
  have hadds : ∀ {method : Method} {text : String} {goal : Destination} {endpoint : Endpoint} {b' : Builder},
      c.goal? = some (method, text, endpoint) → b'.Laid → b'.isSealed = false → b'.revealed = b.revealed →
      ((runOn (register method text goal) b').1 = .ok () ↔
        ∃ route, c.route? = some route ∧ ∀ s ∈ b.revealed, s.Apart route) := by
    intro method text goal endpoint b' hgoal hlaid hopen hsame
    rw [hlaid.register_eq_ok_iff, ← hsame]
    constructor
    · rintro ⟨-, p, hp, hr⟩
      exact ⟨_, (Call.route?_eq_some_iff hgoal).2 ⟨p, hp, rfl⟩, hlaid.apart_iff.1 hr⟩
    · rintro ⟨route, hroute, hr⟩
      obtain ⟨p, hp, rfl⟩ := (Call.route?_eq_some_iff hgoal).1 hroute
      exact ⟨hopen, p, hp, hlaid.apart_iff.2 hr⟩
  cases hc : c.hosted? with
  | some hosted =>
    obtain ⟨method, text, h⟩ := hosted
    rw [perform_of_hosted hc, ← hadds (Call.goal?_of_hosted hc) hs.toLaid hopen rfl]
    cases (runOn (register method text (.handler h)) b).1 <;> simp [Except.map]
  | none =>
    cases c with
    | register method pattern h => cases hc
    | serveAssets base entries => cases hc
    | serveDirectory base d => cases hc
    | sealing => exact ⟨fun h => (by cases h), fun ⟨_, h, _⟩ => (by cases h)⟩
    | serveDocument path title version =>
      have hgoal : (Call.serveDocument path title version).goal? = some (.get, path, .document title version) := rfl
      rw [perform_serveDocument, ← hadds hgoal hs.withPage.toLaid hopen rfl]
      cases runOn (register .get path (.page b.pages.length)) b.withPage with
      | mk result b' => cases result <;> simp

/-- The router after a call that has succeeded: it has the route of the call and those it had. -/
theorem Sound.revealed_perform (hs : b.Sound) (h : (perform c b).1 = .ok none) {route : Route Endpoint}
    (hroute : c.route? = some route) :
    (perform c b).2.isSealed = false ∧ (perform c b).2.revealed.Perm (route :: b.revealed) := by
  obtain ⟨result, b', hrun⟩ : ∃ result b', perform c b = (result, b') := ⟨_, _, rfl⟩
  have hchange := hs.toLaid.change hrun
  rw [hrun] at h ⊢
  clear hrun
  cases hchange with
  | @hosted c method text handler result b' hc hr =>
    obtain rfl : result = .ok () := by cases result <;> simp_all [Except.map]
    obtain ⟨p, hopen, hp, -, -, -, rfl⟩ := hr.of_ok
    obtain ⟨p', hp', rfl⟩ := (Call.route?_eq_some_iff (Call.goal?_of_hosted hc)).1 hroute
    cases hp.symm.trans hp'
    refine ⟨by simpa [insert] using hopen, ?_⟩
    have hpending : ((b.openBranch method).insert ⟨method, p, .handler handler⟩).pending = b.pending := by simp [insert]
    rw [revealed, hpending]
    exact (hs.toLaid.routes_insert ⟨method, p, .handler handler⟩).map _
  | @promised path title version b' hr =>
    obtain ⟨p, hopen, hp, -, -, -, rfl⟩ := hr.of_ok
    obtain ⟨p', hp', rfl⟩ := (Call.route?_eq_some_iff rfl).1 hroute
    cases hp.symm.trans hp'
    refine ⟨by simpa [insert, withPending] using hopen, ?_⟩
    let d : PendingDocument := ⟨path, title, version, b.pages.length⟩
    have hnew : ∀ d' ∈ b.pending, d'.page ≠ d.page :=
      fun d' hd => Nat.ne_of_lt (List.getElem?_eq_some_iff.1 (hs.blank d' hd)).1
    -- the new document is what the new route leads to, and the other routes lead where they did
    have hlast : reveal (b.pending ++ [d]) (.page b.pages.length) = .document title version := reveal_last hnew
    have hold : b.routes.map (Route.map (reveal (b.pending ++ [d]))) = b.revealed := by
      refine List.map_congr_left fun route hroute => ?_
      rw [Route.map, Route.map, ← reveal_append fun number hnumber => ?_]
      obtain ⟨d', hd, hpage, -⟩ := hs.promised route hroute number hnumber
      exact ⟨d', hd, hpage⟩
    have hpending : (((b.withPage.openBranch .get).insert ⟨.get, p, .page b.pages.length⟩).withPending d).pending =
        b.pending ++ [d] := by simp [insert, withPending, Builder.withPage]
    have hroutes := (hs.withPage.toLaid.routes_insert ⟨.get, p, .page b.pages.length⟩).map
      (Route.map (reveal (b.pending ++ [d])))
    rw [List.map_cons, Route.map, hlast] at hroutes
    rw [revealed, hpending, ← hold]
    exact hroutes
  | unpromised hr => cases h
  | emptied => cases h

/-- Calls succeed together exactly if each has a route and no two routes are ambiguous. -/
theorem Sound.accepted_iff (hs : b.Sound) (hopen : b.isSealed = false) :
    Accepted calls b ↔ (∀ c ∈ calls, ∃ route, c.route? = some route) ∧
      (calls.filterMap Call.route? ++ b.revealed).Pairwise Route.Apart := by
  induction calls generalizing b with
  | nil =>
    have hapart : b.revealed.Pairwise Route.Apart := List.pairwise_map.2 hs.toLaid.apart
    simpa [Accepted] using hapart
  | cons c calls ih =>
    rw [Accepted, List.forall_mem_cons]
    constructor
    · rintro ⟨hc, hcalls⟩
      obtain ⟨route, hroute, -⟩ := (hs.perform_eq_ok_iff hopen).1 hc
      obtain ⟨hopen', hperm⟩ := hs.revealed_perform hc hroute
      obtain ⟨hroutes, hapart⟩ := (ih (hs.change (hs.toLaid.change rfl)) hopen').1 hcalls
      refine ⟨⟨⟨route, hroute⟩, hroutes⟩, ?_⟩
      rw [List.filterMap_cons_some hroute]
      exact ((hperm.append_left _).trans List.perm_middle).pairwise_iff Route.Apart.symm |>.1 hapart
    · rintro ⟨⟨⟨route, hroute⟩, hroutes⟩, hapart⟩
      rw [List.filterMap_cons_some hroute] at hapart
      have hc : (perform c b).1 = .ok none := by
        refine (hs.perform_eq_ok_iff hopen).2 ⟨route, hroute, fun s hs => Route.Apart.symm ?_⟩
        exact (List.pairwise_cons.1 hapart).1 s (List.mem_append_right _ hs)
      obtain ⟨hopen', hperm⟩ := hs.revealed_perform hc hroute
      refine ⟨hc, (ih (hs.change (hs.toLaid.change rfl)) hopen').2 ⟨hroutes, ?_⟩⟩
      exact ((hperm.append_left _).trans List.perm_middle).pairwise_iff Route.Apart.symm |>.2 hapart

/-- The routes after calls that have succeeded are those of the calls and those there were. -/
theorem Sound.revealed_performAll (hs : b.Sound) (hopen : b.isSealed = false) (h : Accepted calls b) :
    (Builder.performAll calls b).revealed.Perm (calls.filterMap Call.route? ++ b.revealed) := by
  induction calls generalizing b with
  | nil => exact List.Perm.refl _
  | cons c calls ih =>
    obtain ⟨hc, hcalls⟩ := h
    obtain ⟨route, hroute, -⟩ := (hs.perform_eq_ok_iff hopen).1 hc
    obtain ⟨hopen', hperm⟩ := hs.revealed_perform hc hroute
    rw [List.filterMap_cons_some hroute]
    exact (ih (hs.change (hs.toLaid.change rfl)) hopen' hcalls).trans ((hperm.append_left _).trans List.perm_middle)

theorem accepted_empty_iff : Accepted calls empty ↔
    (∀ c ∈ calls, ∃ route, c.route? = some route) ∧ (calls.filterMap Call.route?).Pairwise Route.Apart := by
  have hrevealed : empty.revealed = [] := rfl
  rw [sound_empty.accepted_iff rfl, hrevealed, List.append_nil]

theorem accepted_of_perm (h : Accepted calls empty) (hperm : calls.Perm calls') : Accepted calls' empty := by
  rw [accepted_empty_iff] at h ⊢
  exact ⟨fun c hc => h.1 c (hperm.mem_iff.2 hc), ((hperm.filterMap _).pairwise_iff Route.Apart.symm).1 h.2⟩

/-! ## The order of branches -/

/-- A router whose branches are gone through in another order. -/
def withBranches (order : List Branch) (b : Builder) : Builder := { b with branches := order }

theorem routes_withBranches {order : List Branch} (h : order.Perm b.branches) :
    (b.withBranches order).routes.Perm b.routes := h.flatMap_right _

theorem Sound.withBranches (hs : b.Sound) {order : List Branch} (h : order.Perm b.branches) :
    (b.withBranches order).Sound where
  methods := (h.map _).nodup_iff.2 hs.methods
  sound branch hb := hs.sound branch (h.mem_iff.1 hb)
  promised r hr := hs.promised r ((routes_withBranches h).mem_iff.1 hr)
  distinct := hs.distinct
  blank := hs.blank
  emptied hsealed := by
    obtain ⟨hbranches, hpending⟩ := hs.emptied hsealed
    rw [hbranches, List.perm_nil] at h
    exact ⟨h, hpending⟩

/-- A table that a router is sealed to after these calls, in whatever order its branches are gone through. -/
def SealsTo (calls : List Call) (t : Table) : Prop :=
  ∃ order, order.Perm (performAll calls empty).branches ∧ ((performAll calls empty).withBranches order).table = t

/-- A router is sealed to a table of the routes of its calls. -/
theorem SealsTo.routes_perm (h : Accepted calls empty) (ht : SealsTo calls t) :
    t.routes.Perm (Router.toTable ⟨calls.filterMap Call.route?, false⟩).2.routes := by
  obtain ⟨order, horder, rfl⟩ := ht
  have hrevealed := sound_empty.revealed_performAll rfl h
  have hempty : empty.revealed = [] := rfl
  rw [hempty, List.append_nil] at hrevealed
  exact ((sound_empty.performAll calls).withBranches horder).table_perm
    (((routes_withBranches horder).map _).trans hrevealed)

theorem SealsTo.searchable (ht : SealsTo calls t) : t.Searchable := by
  obtain ⟨order, horder, rfl⟩ := ht
  exact ((sound_empty.performAll calls).withBranches horder).toLaid.searchable _

theorem SealsTo.parsed (ht : SealsTo calls t) : ∀ r ∈ t.routes, Pattern.parse r.pattern.raw = .ok r.pattern := by
  obtain ⟨order, horder, rfl⟩ := ht
  intro r hr
  obtain ⟨route, hroute, rfl⟩ := List.mem_map.1 hr
  exact ((sound_empty.performAll calls).withBranches horder).toLaid.parsed route hroute

end Builder

namespace Router

/-- Routes that are not ambiguous are finished alike in whatever order they are given. -/
theorem toTable_perm {routes routes' : List (Route Endpoint)} (h : routes.Perm routes')
    (hapart : routes.Pairwise Route.Apart) (hparsed : ∀ r ∈ routes, Pattern.parse r.pattern.raw = .ok r.pattern) :
    (toTable ⟨routes, false⟩).2.routes.Perm (toTable ⟨routes', false⟩).2.routes := by
  have hfinish : finish routes = finish routes' := by
    funext route
    unfold finish
    split
    · rfl
    · rw [ApiDocument.describe_perm h hapart hparsed]
  show (routes.map _).Perm (routes'.map _)
  rw [hfinish]
  exact h.map _

end Router

/-! ## Documents that are served -/

/-- The handler that serves JSON with these bytes. -/
def Handler.ofJsonBytes (content : Bytes) : Handler := fun _ =>
  ⟨0, .response (((Response.new .ok).withHeader "Content-Type" "application/json").withBody content)⟩

/-- There is a GET route with this text, and only one, and it serves JSON with these bytes. -/
def Table.Publishes (t : Table) (path : String) (content : Bytes) : Prop :=
  ∃ r ∈ t.routes, r.method = .get ∧ r.pattern.raw = path ∧ r.endpoint = .ofJsonBytes content ∧
    ∀ s ∈ t.routes, s.method = .get → s.pattern.raw = path → s = r

namespace Builder

variable {calls calls' : List Call} {t t' : Table}

/-- Each document that was promised is served, and describes the routes of the table. -/
theorem SealsTo.publishes (ht : SealsTo calls t) (h : Accepted calls empty) {path title version : String}
    (hdoc : .serveDocument path title version ∈ calls) :
    t.Publishes path (Bytes.ofText (ApiDocument.describe title version path t.routes).text) := by
  have hperm := ht.routes_perm h
  obtain ⟨route, hroute⟩ := (accepted_empty_iff.1 h).1 _ hdoc
  have hmem : route ∈ calls.filterMap Call.route? := List.mem_filterMap.2 ⟨_, hdoc, hroute⟩
  obtain ⟨p, hp, rfl⟩ := (Call.route?_eq_some_iff rfl).1 hroute
  have hraw : p.raw = path := (Pattern.parse_eq_ok_iff.1 hp).2.2
  -- a document names methods and patterns only, and those of the table are those of the calls
  have hdescribe : ApiDocument.describe title version path (calls.filterMap Call.route?) =
      ApiDocument.describe title version path t.routes := by
    rw [← ApiDocument.describe_map (fun _ => ()) _ _ _ t.routes, ← ApiDocument.describe_map (fun _ => ())]
    refine (ApiDocument.describe_perm ((hperm.map _).trans (List.Perm.of_eq ?_)) ?_ ?_ _ _ _).symm
    · show List.map _ (List.map _ _) = _
      rw [List.map_map]
      rfl
    · exact List.pairwise_map.2 ht.searchable.apart
    · exact List.forall_mem_map.2 ht.parsed
  have hfinish : Router.finish (calls.filterMap Call.route?) ⟨.get, p, .document title version⟩ =
      .ofJsonBytes (Bytes.ofText (ApiDocument.describe title version path t.routes).text) := by
    rw [← hdescribe, ← hraw]
    rfl
  have hserved : ⟨.get, p, .ofJsonBytes (Bytes.ofText (ApiDocument.describe title version path t.routes).text)⟩ ∈
      t.routes := by
    rw [hperm.mem_iff, ← hfinish]
    exact List.mem_map.2 ⟨_, hmem, rfl⟩
  exact ⟨_, hserved, rfl, hraw, rfl, fun s hs hmethod hpath =>
    Route.eq_of_raw ht.searchable.apart ht.parsed hs hserved hmethod (hpath.trans hraw.symm)⟩

/-- Tables of the same routes, whatever the order of the calls and of the branches. -/
theorem SealsTo.perm (ht : SealsTo calls t) (ht' : SealsTo calls' t') (h : Accepted calls empty)
    (hperm : calls.Perm calls') : t.routes.Perm t'.routes := by
  obtain ⟨hroutes, hapart⟩ := accepted_empty_iff.1 h
  refine (ht.routes_perm h).trans (List.Perm.trans ?_ (ht'.routes_perm (accepted_of_perm h hperm)).symm)
  refine Router.toTable_perm (hperm.filterMap _) hapart fun r hr => ?_
  obtain ⟨c, -, hc⟩ := List.mem_filterMap.1 hr
  exact Call.parsed_of_route? hc

/-- Calls that succeed in one order succeed in every other one. However the branches are gone through when the router is
sealed, each document is served with the same bytes, and all requests find the same. -/
theorem sealed_of_perm (h : Accepted calls empty) (hperm : calls.Perm calls') :
    Accepted calls' empty ∧ ∀ t t', SealsTo calls t → SealsTo calls' t' →
      (∀ path title version, .serveDocument path title version ∈ calls →
        ∃ content, t.Publishes path content ∧ t'.Publishes path content) ∧
      ∀ method path, t'.find method path = t.find method path ∧ t'.allowed path = t.allowed path := by
  have h' := accepted_of_perm h hperm
  refine ⟨h', fun t t' ht ht' => ⟨fun path title version hdoc => ?_, fun method path => ?_⟩⟩
  · refine ⟨_, ht.publishes h hdoc, ?_⟩
    rw [ApiDocument.describe_perm (ht.perm ht' h hperm) ht.searchable.apart ht.parsed]
    exact ht'.publishes h' (hperm.mem_iff.1 hdoc)
  · have hroutes := (ht.perm ht' h hperm).symm
    exact ⟨ht'.searchable.find_congr ht.searchable hroutes method path, Table.allowed_congr hroutes path⟩

/-- A document registered first and one registered last say the same, also if the GET routes are gone through last. -/
theorem sealed_of_perm_of_reverse :
    let calls : List Call := [.serveDocument "/api" "A" "1", .register .get "/:x" fun _ => ⟨0, .panicked none⟩,
      .register .post "/a" fun _ => ⟨1, .panicked none⟩]
    let b := performAll calls empty
    Accepted calls empty ∧ b.branches.reverse ≠ b.branches ∧ SealsTo calls (b.withBranches b.branches.reverse).table ∧
      ∃ content, (b.withBranches b.branches.reverse).table.Publishes "/api" content ∧
        (performAll calls.reverse empty).table.Publishes "/api" content := by
  intro calls b
  have haccepted : Accepted calls empty := ⟨rfl, rfl, rfl, trivial⟩
  have hreverse : SealsTo calls (b.withBranches b.branches.reverse).table := ⟨_, List.reverse_perm _, rfl⟩
  have hlater : SealsTo calls.reverse (performAll calls.reverse empty).table := ⟨_, List.Perm.refl _, rfl⟩
  have hmethods : b.branches.map (·.method) = [.get, .post] := by rfl
  refine ⟨haccepted, fun heq => ?_, hreverse, ?_⟩
  · have hreversed := congrArg (List.map (·.method)) heq
    rw [List.map_reverse, hmethods] at hreversed
    exact absurd hreversed (by decide)
  · exact ((sealed_of_perm haccepted (List.reverse_perm calls).symm).2 _ _ hreverse hlater).1 "/api" "A" "1"
      List.mem_cons_self

end Builder

end Hypertext

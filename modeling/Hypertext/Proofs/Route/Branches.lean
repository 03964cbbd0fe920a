/-
Branches: the lists of routes of a router that is built up. After any calls, those that failed included, each method has
one branch, which holds routes of that method only, in the order of specificity and without ambiguity. A call that fails
leaves the branches and the documents alone.
-/
import Hypertext.Proofs.Route.Lookup
import Hypertext.Route.Builder
import Mathlib.Data.List.Nodup

namespace Hypertext

/-! ## Acts -/

namespace Builder

variable {α β : Type}

theorem runOn_throw (e : RouteError) (b : Builder) : runOn (throw e : Act α) b = (.error e, b) := rfl

theorem runOn_get (b : Builder) : runOn get b = (.ok b, b) := rfl

theorem runOn_modify (f : Builder → Builder) (b : Builder) : runOn (modify f) b = (.ok (), f b) := rfl

theorem runOn_ofExcept (r : Except RouteError α) (b : Builder) : runOn (MonadExcept.ofExcept r) b = (r, b) := by
  cases r <;> rfl

/-- What comes after an act is done unless it fails. -/
theorem runOn_bind (x : Act α) (f : α → Act β) (b : Builder) :
    runOn (x >>= f) b = match runOn x b with
      | (.ok a, b') => runOn (f a) b'
      | (.error e, b') => (.error e, b') := by
  show (ExceptT.bind x f).run.run b = _
  rw [ExceptT.bind, runOn]
  show (StateT.bind x.run (ExceptT.bindCont f)) b = _
  rw [StateT.bind]
  show ExceptT.bindCont f (x.run.run b).1 (x.run.run b).2 = _
  cases x.run.run b with
  | mk r b' => cases r <;> rfl

theorem runOn_map (x : Act α) (f : α → β) (b : Builder) :
    runOn (f <$> x) b = ((runOn x b).1.map f, (runOn x b).2) := by
  rw [← bind_pure_comp, runOn_bind]
  cases runOn x b with
  | mk r b' => cases r <;> rfl

theorem runOn_ite (c : Prop) [Decidable c] (x y : Act α) (b : Builder) :
    runOn (if c then x else y) b = if c then runOn x b else runOn y b := by
  split <;> rfl

end Builder

/-! ## One branch -/

/-- Routes of one method, the most specific first, no two of them ambiguous, with the patterns that their texts are. -/
structure Branch.Sound (branch : Branch) : Prop where
  own : ∀ r ∈ branch.routes, r.method = branch.method
  before : branch.routes.Pairwise Route.Before
  apart : branch.routes.Pairwise Route.Apart
  parsed : ∀ r ∈ branch.routes, Pattern.parse r.pattern.raw = .ok r.pattern

namespace Builder

/-- Among routes of one method a route is put where it stands among all routes. -/
theorem insertRoute_eq_place {new : Route Destination} :
    ∀ {routes : List (Route Destination)}, (∀ r ∈ routes, r.method = new.method) →
      insertRoute new routes = Router.place new routes
  | [], _ => rfl
  | r :: rest, h => by
    have hr : (r.method == new.method) = true := by simpa using h r List.mem_cons_self
    have hrest : insertRoute new rest = Router.place new rest :=
      insertRoute_eq_place fun s hs => h s (List.mem_cons_of_mem _ hs)
    rw [Router.place, hr, Bool.true_and, ← hrest, insertRoute, insertRoute, List.findIdx_cons]
    cases r.pattern.compareSpecificity new.pattern == .gt <;> simp

end Builder

/-- A branch stays sound with a route of its method that is ambiguous with none that it has. -/
theorem Branch.Sound.insert {method : Method} {routes : List (Route Destination)} {new : Route Destination}
    (h : Branch.Sound ⟨method, routes⟩) (hm : new.method = method) (hp : Pattern.parse new.pattern.raw = .ok new.pattern)
    (hr : ∀ r ∈ routes, r.pattern.isAmbiguousWith new.pattern = false) :
    Branch.Sound ⟨method, Builder.insertRoute new routes⟩ := by
  have hplace : Builder.insertRoute new routes = Router.place new routes :=
    Builder.insertRoute_eq_place fun r hr => (h.own r hr).trans hm.symm
  have hperm := Router.place_perm new routes
  rw [hplace]
  constructor
  case own =>
    intro r hmem
    rcases List.mem_cons.1 (hperm.mem_iff.1 hmem) with rfl | hmem
    · exact hm
    · exact h.own r hmem
  case before => exact Router.place_before new h.before
  case apart =>
    refine (hperm.pairwise_iff Route.Apart.symm).2 (List.pairwise_cons.2 ⟨fun r hmem => ?_, h.apart⟩)
    exact Route.Apart.symm fun _ => hr r hmem
  case parsed =>
    intro r hmem
    rcases List.mem_cons.1 (hperm.mem_iff.1 hmem) with rfl | hmem
    · exact hp
    · exact h.parsed r hmem

namespace Builder

/-! ## All branches -/

variable {b b' : Builder} {method : Method} {new : Route Destination}

/-- Each method has one branch, and all branches are sound. -/
structure Laid (b : Builder) : Prop where
  methods : (b.branches.map (·.method)).Nodup
  sound : ∀ branch ∈ b.branches, branch.Sound

theorem size_eq (b : Builder) : b.size = b.routes.length := by
  rw [size, routes, List.length_flatMap, List.sum_eq_foldl, List.foldl_map]

theorem routesOf_eq_nil (h : ∀ branch ∈ b.branches, branch.method ≠ method) : b.routesOf method = [] := by
  have hnone : b.branches.find? (·.method == method) = none := by
    rw [List.find?_eq_none]
    exact fun branch hb => by simpa using h branch hb
  rw [routesOf, hnone]
  rfl

/-- The branch of a method where there is one. -/
theorem routesOf_of_split {before after : List Branch} {routes : List (Route Destination)}
    (h : b.branches = before ++ ⟨method, routes⟩ :: after) (hbefore : ∀ branch ∈ before, branch.method ≠ method) :
    b.routesOf method = routes := by
  have hfind : b.branches.find? (·.method == method) = some ⟨method, routes⟩ := by
    rw [h, List.find?_append, List.find?_eq_none.2 fun branch hb => by simpa using hbefore branch hb]
    simp
  rw [routesOf, hfind]
  rfl

theorem routesOf_of_ne {before after : List Branch} {routes routes' : List (Route Destination)} {other : Method}
    (h : b.branches = before ++ ⟨method, routes⟩ :: after) (h' : b'.branches = before ++ ⟨method, routes'⟩ :: after)
    (hne : other ≠ method) : b'.routesOf other = b.routesOf other := by
  have hskip : ∀ routes : List (Route Destination), (before ++ (⟨method, routes⟩ : Branch) :: after).find?
      (·.method == other) = (before ++ after).find? (·.method == other) := by
    intro routes
    rw [List.find?_append, List.find?_append, List.find?_cons_of_neg (by simpa using hne.symm)]
  rw [routesOf, routesOf, h, h', hskip, hskip]

/-- Where the branch of a method stands, once it has been opened. -/
theorem Laid.split (h : b.Laid) (method : Method) :
    ∃ before after, (b.openBranch method).branches = before ++ ⟨method, b.routesOf method⟩ :: after ∧
      (∀ branch ∈ before ++ after, branch.method ≠ method) ∧
      (b.branches = before ++ ⟨method, b.routesOf method⟩ :: after ∨
        b.branches = before ∧ after = [] ∧ b.routesOf method = []) := by
  by_cases hany : ∃ branch ∈ b.branches, branch.method = method
  · obtain ⟨branch, hmem, rfl⟩ := hany
    obtain ⟨before, after, hsplit⟩ := List.append_of_mem hmem
    have hnodup := h.methods
    rw [hsplit, List.map_append, List.map_cons, List.nodup_middle, List.nodup_cons, ← List.map_append] at hnodup
    have hothers : ∀ other ∈ before ++ after, other.method ≠ branch.method :=
      fun other ho heq => hnodup.1 (List.mem_map.2 ⟨other, ho, heq⟩)
    have hroutes := routesOf_of_split hsplit fun other ho => hothers other (List.mem_append_left _ ho)
    have hopen : b.openBranch branch.method = b := by
      rw [openBranch, if_pos (List.any_eq_true.2 ⟨branch, hmem, by simp⟩)]
    rw [hopen, hroutes]
    exact ⟨before, after, hsplit, hothers, .inl hsplit⟩
  · have hnone : ∀ branch ∈ b.branches, branch.method ≠ method := fun branch hb heq => hany ⟨branch, hb, heq⟩
    have hopen : b.openBranch method = { b with branches := b.branches ++ [⟨method, []⟩] } := by
      rw [openBranch, if_neg]
      simpa using hnone
    rw [hopen, routesOf_eq_nil hnone]
    exact ⟨b.branches, [], rfl, by simpa using hnone, .inr ⟨rfl, rfl, rfl⟩⟩

theorem routesOf_openBranch (h : b.Laid) : (b.openBranch method).routesOf method = b.routesOf method := by
  obtain ⟨before, after, hopen, hothers, -⟩ := h.split method
  exact routesOf_of_split hopen fun branch hb => hothers branch (List.mem_append_left _ hb)

/-- A branch with a route in it is open already. -/
theorem openBranch_of_mem {r : Route Destination} (h : r ∈ b.routesOf method) : b.openBranch method = b := by
  rw [openBranch, if_pos]
  by_contra hany
  rw [routesOf_eq_nil] at h
  · cases h
  · simpa using hany

/-- A route that has been put in its branch: the branch is one route longer and the others are as they were. -/
theorem Laid.insert_branches (h : b.Laid) (new : Route Destination) :
    ∃ before after, ((b.openBranch new.method).insert new).branches =
        before ++ ⟨new.method, insertRoute new (b.routesOf new.method)⟩ :: after ∧
      (∀ branch ∈ before ++ after, branch.method ≠ new.method) ∧
      (b.branches = before ++ ⟨new.method, b.routesOf new.method⟩ :: after ∨
        b.branches = before ∧ after = [] ∧ b.routesOf new.method = []) := by
  obtain ⟨before, after, hopen, hothers, hcases⟩ := h.split new.method
  refine ⟨before, after, ?_, hothers, hcases⟩
  have hsame : ∀ branches : List Branch, (∀ branch ∈ branches, branch.method ≠ new.method) →
      branches.map (fun branch =>
        if branch.method == new.method then { branch with routes := insertRoute new branch.routes } else branch) =
          branches := by
    intro branches hne
    refine (List.map_congr_left fun branch hb => if_neg ?_).trans (List.map_id _)
    simpa using hne branch hb
  rw [insert, hopen, List.map_append, List.map_cons, hsame before fun branch hb => hothers branch (List.mem_append_left _ hb),
    hsame after fun branch hb => hothers branch (List.mem_append_right _ hb)]
  simp

theorem Laid.sound_routesOf (h : b.Laid) (method : Method) : Branch.Sound ⟨method, b.routesOf method⟩ := by
  obtain ⟨before, after, -, -, hcases⟩ := h.split method
  rcases hcases with hsplit | ⟨-, -, hnil⟩
  · exact h.sound _ (by rw [hsplit]; simp)
  · rw [hnil]
    exact ⟨by simp, List.Pairwise.nil, List.Pairwise.nil, by simp⟩

/-- Branches stay laid with a route that is ambiguous with none of its method. -/
theorem Laid.insert (h : b.Laid) (hp : Pattern.parse new.pattern.raw = .ok new.pattern)
    (hr : ∀ r ∈ b.routesOf new.method, r.pattern.isAmbiguousWith new.pattern = false) :
    ((b.openBranch new.method).insert new).Laid := by
  obtain ⟨before, after, hinsert, hothers, hcases⟩ := h.insert_branches new
  have hmethods : (before ++ ⟨new.method, b.routesOf new.method⟩ :: after).map (·.method) =
      (before ++ ⟨new.method, insertRoute new (b.routesOf new.method)⟩ :: after).map (·.method) := by simp
  have hbefore : ∀ branch ∈ before ++ after, branch.Sound := by
    intro branch hb
    rcases hcases with hsplit | ⟨hsplit, rfl, -⟩
    · refine h.sound branch ?_
      rw [hsplit]
      exact List.mem_append.2 ((List.mem_append.1 hb).imp_right (List.mem_cons_of_mem _))
    · rw [List.append_nil] at hb
      exact h.sound branch (by rw [hsplit]; exact hb)
  constructor
  case methods =>
    rw [hinsert, List.map_append, List.map_cons, List.nodup_middle, List.nodup_cons, ← List.map_append]
    refine ⟨fun hmem => ?_, ?_⟩
    · obtain ⟨branch, hb, heq⟩ := List.mem_map.1 hmem
      exact hothers branch hb heq
    · have hnodup := h.methods
      rcases hcases with hsplit | ⟨hsplit, rfl, -⟩
      · rw [hsplit, List.map_append, List.map_cons, List.nodup_middle, List.nodup_cons, ← List.map_append] at hnodup
        exact hnodup.2
      · rwa [List.append_nil, ← hsplit]
  case sound =>
    intro branch hb
    rw [hinsert] at hb
    rcases List.mem_append.1 hb with hb | hb
    · exact hbefore branch (List.mem_append_left _ hb)
    · rcases List.mem_cons.1 hb with rfl | hb
      · exact (h.sound_routesOf new.method).insert rfl hp hr
      · exact hbefore branch (List.mem_append_right _ hb)

theorem Laid.routesOf_insert (h : b.Laid) (method : Method) :
    ((b.openBranch new.method).insert new).routesOf method =
      if new.method = method then insertRoute new (b.routesOf method) else b.routesOf method := by
  obtain ⟨before, after, hinsert, hothers, hcases⟩ := h.insert_branches new
  have hbefore : ∀ branch ∈ before, branch.method ≠ new.method := fun branch hb => hothers branch (List.mem_append_left _ hb)
  by_cases hm : new.method = method
  · rw [if_pos hm, ← hm]
    exact routesOf_of_split hinsert hbefore
  · rw [if_neg hm]
    rcases hcases with hsplit | ⟨hsplit, rfl, hnil⟩
    · exact routesOf_of_ne hsplit hinsert (Ne.symm hm)
    · -- the branch that was opened is the last one
      rw [routesOf, routesOf, hinsert, hsplit, List.find?_append, List.find?_cons_of_neg (by simpa using hm)]
      simp

/-- With a route that is put in its branch the router has one route more. -/
theorem Laid.routes_insert (h : b.Laid) (new : Route Destination) :
    ((b.openBranch new.method).insert new).routes.Perm (new :: b.routes) := by
  obtain ⟨before, after, hinsert, -, hcases⟩ := h.insert_branches new
  have hplace : (insertRoute new (b.routesOf new.method)).Perm (new :: b.routesOf new.method) := by
    rw [insertRoute_eq_place (h.sound_routesOf new.method).own]
    exact Router.place_perm new _
  have hold : b.routes = before.flatMap (·.routes) ++ (b.routesOf new.method ++ after.flatMap (·.routes)) := by
    rcases hcases with hsplit | ⟨hsplit, rfl, hnil⟩
    · rw [routes, hsplit, List.flatMap_append, List.flatMap_cons]
    · rw [routes, hsplit, hnil]
      simp
  rw [hold, routes, hinsert, List.flatMap_append, List.flatMap_cons]
  refine ((hplace.append_right _).append_left _).trans ?_
  exact List.perm_middle

theorem Laid.mem_routes_iff (h : b.Laid) {r : Route Destination} : r ∈ b.routes ↔ r ∈ b.routesOf r.method := by
  constructor
  · intro hr
    obtain ⟨branch, hb, hr⟩ := List.mem_flatMap.1 hr
    obtain ⟨before, after, -, hothers, hcases⟩ := h.split r.method
    have hm : branch.method = r.method := ((h.sound branch hb).own r hr).symm
    rcases hcases with hsplit | ⟨hsplit, -, -⟩
    · rw [hsplit] at hb
      rcases List.mem_append.1 hb with hb | hb
      · exact absurd hm (hothers branch (List.mem_append_left _ hb))
      · rcases List.mem_cons.1 hb with rfl | hb
        · exact hr
        · exact absurd hm (hothers branch (List.mem_append_right _ hb))
    · rw [hsplit] at hb
      exact absurd hm (hothers branch (List.mem_append_left _ hb))
  · intro hr
    obtain ⟨branch, hfind, hr⟩ : ∃ branch, b.branches.find? (·.method == r.method) = some branch ∧ r ∈ branch.routes := by
      rw [routesOf] at hr
      cases hfind : b.branches.find? (·.method == r.method) with
      | none =>
        rw [hfind] at hr
        cases hr
      | some branch =>
        rw [hfind] at hr
        exact ⟨branch, rfl, hr⟩
    exact List.mem_flatMap.2 ⟨branch, List.mem_of_find?_eq_some hfind, hr⟩

/-! ## Registering a route -/

/-- What registering a route does. -/
theorem runOn_register (method : Method) (text : String) (goal : Destination) (b : Builder) :
    runOn (register method text goal) b =
      if b.isSealed then (.error .isSealed, b)
      else match Pattern.parse text with
        | .error e => (.error (.invalidPattern text e), b)
        | .ok p => match ((b.openBranch method).routesOf method).find? fun r => r.pattern.isAmbiguousWith p with
          | some rival => (.error (.conflict method text rival.pattern.raw), b.openBranch method)
          | none => (.ok (), (b.openBranch method).insert ⟨method, p, goal⟩) := by
  simp only [register, runOn_bind, runOn_get, runOn_ite, runOn_throw, runOn_ofExcept, runOn_modify]
  cases b.isSealed with
  | true => rfl
  | false =>
    cases hp : Pattern.parse text with
    | error e => rfl
    | ok p =>
      simp only [Bool.false_eq_true, if_false, Except.mapError]
      cases ((b.openBranch method).routesOf method).find? fun r => r.pattern.isAmbiguousWith p <;> rfl

/-- How registering a route can end. It fails before anything is changed: a branch that is ambiguous with the pattern
had been opened before. -/
inductive Registered (method : Method) (text : String) (goal : Destination) (b : Builder) :
    Except RouteError Unit → Builder → Prop
  | refused (hsealed : b.isSealed = true) : Registered method text goal b (.error .isSealed) b
  | invalid (e : PatternError) (hopen : b.isSealed = false) (hp : Pattern.parse text = .error e) :
      Registered method text goal b (.error (.invalidPattern text e)) b
  | conflict (p : Pattern) (rival : Route Destination) (hopen : b.isSealed = false) (hp : Pattern.parse text = .ok p)
      (hr : (b.routesOf method).find? (fun r => r.pattern.isAmbiguousWith p) = some rival) :
      Registered method text goal b (.error (.conflict method text rival.pattern.raw)) b
  | accepted (p : Pattern) (hopen : b.isSealed = false) (hp : Pattern.parse text = .ok p)
      (hr : (b.routesOf method).find? (fun r => r.pattern.isAmbiguousWith p) = none) :
      Registered method text goal b (.ok ()) ((b.openBranch method).insert ⟨method, p, goal⟩)

theorem Laid.register (h : b.Laid) {method : Method} {text : String} {goal : Destination}
    {result : Except RouteError Unit} (hrun : runOn (Builder.register method text goal) b = (result, b')) :
    Registered method text goal b result b' := by
  rw [runOn_register, routesOf_openBranch h] at hrun
  cases hsealed : b.isSealed with
  | true =>
    rw [if_pos hsealed] at hrun
    cases hrun
    exact .refused hsealed
  | false =>
    rw [if_neg (by simp [hsealed])] at hrun
    cases hp : Pattern.parse text with
    | error e =>
      simp only [hp] at hrun
      cases hrun
      exact .invalid e hsealed hp
    | ok p =>
      simp only [hp] at hrun
      cases hr : (b.routesOf method).find? fun r => r.pattern.isAmbiguousWith p with
      | none =>
        simp only [hr] at hrun
        cases hrun
        exact .accepted p hsealed hp hr
      | some rival =>
        simp only [hr, openBranch_of_mem (List.mem_of_find?_eq_some hr)] at hrun
        cases hrun
        exact .conflict p rival hsealed hp hr

/-- A route that cannot be registered changes nothing. -/
theorem Registered.eq_of_error {text : String} {goal : Destination} {e : RouteError}
    (h : Registered method text goal b (.error e) b') : b' = b := by
  cases h <;> rfl

end Builder

end Hypertext

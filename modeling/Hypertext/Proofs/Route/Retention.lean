/-
Retention: a route that a call has added is in the table that its router is sealed to, whatever calls come later, those
that fail included. The table finds it for every path that it matches, unless a more specific route of its method matches
the path as well.
-/
import Hypertext.Proofs.Route.Sealing

namespace Hypertext

namespace Table

variable {t : Table} {r : Route Handler} {path : String} {params : PathParams}

/-- No route of the method that matches the path is to be preferred to the pattern. -/
def Unrivalled (t : Table) (method : Method) (p : Pattern) (path : String) : Prop :=
  ∀ s ∈ t.routes, Fits method (splitPath path) s → ¬ Segment.Outranks s.pattern.segments p.segments

theorem Searchable.find_of_unrivalled (h : t.Searchable) (hr : r ∈ t.routes)
    (hmatch : r.pattern.match? (splitPath path) = some params) (hbest : t.Unrivalled r.method r.pattern path) :
    t.find r.method path = .ok ⟨r, params⟩ := by
  have hfits : Fits r.method (splitPath path) r := ⟨rfl, by rw [hmatch]; rfl⟩
  obtain ⟨found, hfound⟩ := first?_isSome_iff.2 ⟨r, hr, hfits⟩
  obtain ⟨hmem, hfits', hmatch', hfirst⟩ := h.first?_spec hfound
  have hroute : r = found.route := (hfirst r hr hfits).resolve_right (hbest _ hmem hfits')
  obtain ⟨route, params'⟩ := found
  obtain rfl : r = route := hroute
  have hparams : some params = some params' := hmatch.symm.trans hmatch'
  cases hparams
  exact find_eq_ok_iff.2 hfound

end Table

namespace Builder

variable {b b' : Builder} {c : Call} {calls : List Call} {t : Table} {method : Method} {text : String} {h : Handler}

/-! ## Later calls -/

theorem Registered.mem_routes {goal : Destination} {result : Except RouteError Unit} (hlaid : b.Laid)
    (hr : Registered method text goal b result b') {r : Route Destination} (hmem : r ∈ b.routes) : r ∈ b'.routes := by
  cases hr with
  | accepted p _ _ _ => exact (hlaid.routes_insert _).mem_iff.2 (List.mem_cons_of_mem _ hmem)
  | refused | invalid | conflict => exact hmem

/-- Only sealing takes routes away. -/
theorem Change.mem_routes {result : Except RouteError (Option Listing)} (hlaid : b.Laid) (hchange : Change b c result b')
    (hc : c ≠ .sealing) {r : Route Destination} (hmem : r ∈ b.routes) : r ∈ b'.routes := by
  cases hchange with
  | hosted _ hr => exact hr.mem_routes hlaid hmem
  | promised hr => exact hr.mem_routes hlaid.withPage hmem
  | unpromised hr => exact hr.mem_routes hlaid.withPage hmem
  | emptied => exact absurd rfl hc

theorem Sound.mem_performAll (hs : b.Sound) (hcalls : .sealing ∉ calls) {r : Route Destination} (hmem : r ∈ b.routes) :
    r ∈ (Builder.performAll calls b).routes := by
  induction calls generalizing b with
  | nil => exact hmem
  | cons c calls ih =>
    rw [List.mem_cons, not_or] at hcalls
    have hchange : Change b c (perform c b).1 (perform c b).2 := hs.toLaid.change rfl
    exact ih (hs.change hchange) hcalls.2 (hchange.mem_routes hs.toLaid (Ne.symm hcalls.1) hmem)

/-- A call for a handler that succeeds adds its route. -/
theorem Sound.mem_of_performed (hs : b.Sound) (hc : c.hosted? = some (method, text, h))
    (hok : (perform c b).1 = .ok none) :
    ∃ p, Pattern.parse text = .ok p ∧ ⟨method, p, .handler h⟩ ∈ (perform c b).2.routes := by
  obtain ⟨result, b', hrun⟩ : ∃ result b', runOn (register method text (.handler h)) b = (result, b') := ⟨_, _, rfl⟩
  rw [perform_of_hosted hc, hrun] at hok ⊢
  obtain rfl : result = .ok () := by cases result <;> simp_all [Except.map]
  obtain ⟨p, -, hp, -, -, -, rfl⟩ := (hs.toLaid.register hrun).of_ok
  exact ⟨p, hp, (hs.toLaid.routes_insert _).mem_iff.2 List.mem_cons_self⟩

/-! ## The sealed router -/

/-- A table that a router is sealed to on which this call has succeeded, whatever calls came before it and after it. -/
def SealsWith (c : Call) (t : Table) : Prop :=
  ∃ before after, (perform c (performAll before empty)).1 = .ok none ∧ .sealing ∉ after ∧
    SealsTo (before ++ c :: after) t

/-- A router with a single call can be sealed to its routes. -/
theorem sealsWith_single (hok : (perform c empty).1 = .ok none) : SealsWith c (performAll [c] empty).table :=
  ⟨[], [], hok, List.not_mem_nil, _, List.Perm.refl _, rfl⟩

theorem SealsTo.mem_of_routes (ht : SealsTo calls t) {p : Pattern}
    (hmem : ⟨method, p, .handler h⟩ ∈ (performAll calls empty).routes) : ⟨method, p, h⟩ ∈ t.routes := by
  obtain ⟨order, horder, rfl⟩ := ht
  exact List.mem_map.2 ⟨_, (routes_withBranches horder).mem_iff.2 hmem, rfl⟩

theorem SealsWith.mem_routes (ht : SealsWith c t) (hc : c.hosted? = some (method, text, h)) :
    ∃ p, Pattern.parse text = .ok p ∧ ⟨method, p, h⟩ ∈ t.routes := by
  obtain ⟨before, after, hok, hafter, ht⟩ := ht
  have hbefore : (performAll before empty).Sound := sound_empty.performAll before
  obtain ⟨p, hp, hmem⟩ := hbefore.mem_of_performed hc hok
  have hsound : (perform c (performAll before empty)).2.Sound := hbefore.change (hbefore.toLaid.change rfl)
  refine ⟨p, hp, ht.mem_of_routes ?_⟩
  have hall : performAll (before ++ c :: after) empty = performAll after (perform c (performAll before empty)).2 := by
    rw [performAll, List.foldl_append]
    rfl
  rw [hall]
  exact hsound.mem_performAll hafter hmem

theorem SealsWith.searchable (ht : SealsWith c t) : t.Searchable := by
  obtain ⟨_, _, _, _, ht⟩ := ht
  exact ht.searchable

end Builder

end Hypertext

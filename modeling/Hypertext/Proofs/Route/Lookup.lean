/-
Lookup: a sealed table finds a route for a request exactly if one was accepted for its method and matches its path,
and of those it finds the most specific one. Which routes these are and which methods are allowed for a path does not
depend on the order in which the routes were registered.
-/
import Hypertext.Proofs.Route.Registration

namespace Hypertext

/-! ## The order of methods -/

namespace Method

/-- The place of a method in the order, and the name that counts among those of one place. -/
def key : Method → Nat ×ₗ String
  | .custom name => toLex (known.length, name)
  | m => toLex (known.idxOf m, "")

theorem key_injective {a b : Method} (h : a.key = b.key) : a = b := by
  cases a <;> cases b <;> simp_all [key, known]

theorem le_iff (a b : Method) : le a b = true ↔ a.key ≤ b.key := by
  rw [Prod.Lex.le_iff]
  cases a <;> cases b <;> simp [le, key, known]

theorem le_trans' (a b c : Method) (h : le a b = true) (h' : le b c = true) : le a c = true := by
  rw [le_iff] at h h' ⊢
  exact le_trans h h'

theorem le_total' (a b : Method) : (le a b || le b a) = true := by
  rw [Bool.or_eq_true, le_iff, le_iff]
  exact le_total _ _

theorem le_antisymm' {a b : Method} (h : le a b = true) (h' : le b a = true) : a = b := by
  rw [le_iff] at h h'
  exact key_injective (le_antisymm h h')

theorem nodup_eraseDups : ∀ methods : List Method, methods.eraseDups.Nodup
  | [] => List.nodup_nil
  | m :: methods => by
    rw [List.eraseDups_cons, List.nodup_cons]
    refine ⟨?_, nodup_eraseDups _⟩
    rw [List.mem_eraseDups, List.mem_filter]
    simp
termination_by methods => methods.length
decreasing_by exact Nat.lt_succ_of_le (List.length_filter_le _ _)

/-- Methods in order and without repetition are determined by which ones they are. -/
theorem sorted_congr {methods methods' : List Method} (h : ∀ m, m ∈ methods ↔ m ∈ methods') :
    methods.eraseDups.mergeSort le = methods'.eraseDups.mergeSort le := by
  refine List.Perm.eq_of_pairwise (fun a b _ _ => le_antisymm') (List.pairwise_mergeSort le_trans' le_total' _)
    (List.pairwise_mergeSort le_trans' le_total' _) ?_
  refine (List.mergeSort_perm _ _).trans (List.Perm.trans ?_ (List.mergeSort_perm _ _).symm)
  refine (List.perm_ext_iff_of_nodup (nodup_eraseDups _) (nodup_eraseDups _)).2 fun m => ?_
  rw [List.mem_eraseDups, List.mem_eraseDups, h]

end Method

/-! ## Tables -/

namespace Table

/-- The first route that matches is the most specific one: the routes of a method are in order, no two of them are
ambiguous, and their wildcards stand at the end. -/
structure Searchable (t : Table) : Prop where
  before : t.routes.Pairwise Route.Before
  apart : t.routes.Pairwise Route.Apart
  wildcardLast : ∀ r ∈ t.routes, Pattern.WildcardLast r.pattern.segments

variable {t t' : Table} {method : Method} {path : List String} {found : Found}

theorem find_eq_ok_iff {path : String} : t.find method path = .ok found ↔ t.first? method (splitPath path) = some found := by
  unfold find
  cases h : t.first? method (splitPath path) with
  | none =>
    simp only [reduceCtorEq, iff_false]
    split <;> simp
  | some found' => simp

/-- Whether a route is one of this method and matches this path. -/
def Fits (method : Method) (path : List String) (r : Route Handler) : Prop :=
  r.method = method ∧ (r.pattern.match? path).isSome

theorem first?_isSome_iff : (∃ found, t.first? method path = some found) ↔ ∃ r ∈ t.routes, Fits method path r := by
  rw [← Option.isSome_iff_exists, first?, List.findSome?_isSome_iff]
  refine exists_congr fun r => and_congr_right fun _ => ?_
  unfold Fits
  by_cases h : r.method = method <;> simp [h]

/-- The route that is found fits, and every other one that fits is less specific. -/
theorem Searchable.first?_spec (h : t.Searchable) (hfound : t.first? method path = some found) :
    found.route ∈ t.routes ∧ Fits method path found.route ∧ found.route.pattern.match? path = some found.params ∧
      ∀ s ∈ t.routes, Fits method path s → s = found.route ∨
        Segment.Outranks found.route.pattern.segments s.pattern.segments := by
  obtain ⟨earlier, route, later, hroutes, hroute, hearlier⟩ := List.findSome?_eq_some_iff.1 hfound
  have hfit : route.method = method ∧ ∃ params, route.pattern.match? path = some params ∧ ⟨route, params⟩ = found := by
    by_cases hm : route.method = method
    · simpa [hm] using hroute
    · simp [hm] at hroute
  obtain ⟨hm, params, hmatch, rfl⟩ := hfit
  have hmem : route ∈ t.routes := by rw [hroutes]; simp
  refine ⟨hmem, ⟨hm, by rw [hmatch]; rfl⟩, hmatch, fun s hs ⟨hsm, hsmatch⟩ => ?_⟩
  rw [hroutes] at hs
  rcases List.mem_append.1 hs with hs | hs
  · -- an earlier route would have been found
    have hnone := hearlier s hs
    rw [if_pos (by simpa using hsm), Option.map_eq_none_iff] at hnone
    rw [hnone] at hsmatch
    cases hsmatch
  · rcases List.mem_cons.1 hs with rfl | hs
    · exact .inl rfl
    · have hbefore := h.before
      have hapart := h.apart
      rw [hroutes, List.pairwise_append, List.pairwise_cons] at hbefore hapart
      obtain ⟨params', hmatch'⟩ := Option.isSome_iff_exists.1 hsmatch
      -- a later route ranks no higher, and if it ranked as high the two would be ambiguous
      have hle := hbefore.2.1.1 s hs (hm.trans hsm.symm)
      have hnot := hapart.2.1.1 s hs (hm.trans hsm.symm)
      have hne : route.pattern.ranks ≠ s.pattern.ranks := by
        intro heq
        have hs' : s ∈ t.routes := by rw [hroutes]; simp [hs]
        have hsame : route.pattern.isAmbiguousWith s.pattern = true :=
          Pattern.isAmbiguousWith_of_match (h.wildcardLast _ hmem) (h.wildcardLast _ hs') hmatch hmatch' heq
        rw [hsame] at hnot
        cases hnot
      exact .inr (Segment.outranks_iff.2 (lt_of_le_of_ne hle hne))

/-! ## The order of registration -/

theorem Searchable.of_perm (h : t.Searchable) (hbefore : t'.routes.Pairwise Route.Before)
    (hperm : t.routes.Perm t'.routes) : t'.Searchable where
  before := hbefore
  apart := (hperm.pairwise_iff Route.Apart.symm).1 h.apart
  wildcardLast r hr := h.wildcardLast r (hperm.mem_iff.2 hr)

/-- Tables with the same routes find the same. -/
theorem Searchable.first?_congr (h : t.Searchable) (h' : t'.Searchable) (hperm : t.routes.Perm t'.routes)
    (method : Method) (path : List String) : t.first? method path = t'.first? method path := by
  have hsome : (∃ found, t.first? method path = some found) ↔ ∃ found, t'.first? method path = some found := by
    rw [first?_isSome_iff, first?_isSome_iff]
    simp only [hperm.mem_iff]
  cases hf : t.first? method path with
  | none =>
    cases hf' : t'.first? method path with
    | none => rfl
    | some found' =>
      obtain ⟨found, hfound⟩ := hsome.2 ⟨found', hf'⟩
      rw [hf] at hfound
      cases hfound
  | some found =>
    obtain ⟨found', hf'⟩ := hsome.1 ⟨found, hf⟩
    obtain ⟨hmem, hfit, hmatch, hbest⟩ := h.first?_spec hf
    obtain ⟨hmem', hfit', hmatch', hbest'⟩ := h'.first?_spec hf'
    -- each of the two routes outranks the other one unless they are the same
    have hroute : found'.route = found.route := by
      rcases hbest _ (hperm.mem_iff.2 hmem') hfit' with heq | hout
      · exact heq
      · rcases hbest' _ (hperm.mem_iff.1 hmem) hfit with heq | hout'
        · exact heq.symm
        · exact absurd hout' hout.asymm
    have hparams : found'.params = found.params := by
      rw [hroute, hmatch] at hmatch'
      exact (Option.some.inj hmatch').symm
    rw [hf']
    cases found
    cases found'
    simp_all

/-- Tables with the same routes allow the same methods. -/
theorem allowed_congr (hperm : t.routes.Perm t'.routes) (path : String) : t.allowed path = t'.allowed path := by
  refine Method.sorted_congr fun m => ?_
  simp only [List.mem_map, List.mem_filter, hperm.mem_iff]

theorem Searchable.find_congr (h : t.Searchable) (h' : t'.Searchable) (hperm : t.routes.Perm t'.routes)
    (method : Method) (path : String) : t.find method path = t'.find method path := by
  rw [find, find, h.first?_congr h' hperm, allowed_congr hperm]

end Table

/-! ## Sealed routers -/

namespace Router

variable {r : Router} {routes : List (Route Handler)}

/-- The table of a router has the routes that the router holds. -/
theorem Holds.toTable_perm (h : r.Holds routes) : r.toTable.2.routes.Perm routes := by
  refine (h.perm.map _).trans ?_
  rw [List.map_map]
  exact List.Perm.of_eq (List.map_id routes)

theorem Holds.toTable_searchable (h : r.Holds routes)
    (hlast : ∀ route ∈ routes, Pattern.WildcardLast route.pattern.segments) : r.toTable.2.Searchable where
  before := List.pairwise_map.2 h.before
  apart := (h.toTable_perm.pairwise_iff Route.Apart.symm).2 h.apart
  wildcardLast route hr := hlast route (h.toTable_perm.mem_iff.1 hr)

theorem holds_accepted (calls : List Registration) :
    (registerAll calls empty).Holds ((accepted calls empty).filterMap Registration.route?) := by
  have h : (registerAll calls empty).Holds (_ ++ []) := Holds.registerAll holds_empty
  rwa [List.append_nil] at h

/-- The table after calls. -/
def tableOf (calls : List Registration) : Table := (registerAll calls empty).toTable.2

theorem tableOf_perm (calls : List Registration) :
    (tableOf calls).routes.Perm ((accepted calls empty).filterMap Registration.route?) :=
  (holds_accepted calls).toTable_perm

theorem tableOf_searchable (calls : List Registration) : (tableOf calls).Searchable := by
  refine (holds_accepted calls).toTable_searchable fun route hroute => ?_
  obtain ⟨c, -, hc⟩ := List.mem_filterMap.1 hroute
  exact Pattern.parse_wildcardLast (Registration.route?_eq_some_iff.1 hc).1

theorem mem_tableOf_iff {calls : List Registration} {route : Route Handler} :
    route ∈ (tableOf calls).routes ↔ ∃ c ∈ accepted calls empty, c.route? = some route := by
  rw [(tableOf_perm calls).mem_iff, List.mem_filterMap]

/-- No call is accepted twice. -/
theorem accepted_nodup (calls : List Registration) : (accepted calls empty).Nodup := by
  have hapart := List.pairwise_filterMap.1 (holds_accepted calls).apart
  refine hapart.imp_of_mem fun {c d} hc _ h => ?_
  rintro rfl
  obtain ⟨route, hroute⟩ := holds_empty.route?_of_accepted c hc
  exact Route.not_apart_self route (h route hroute route hroute)

theorem find_isOk_iff {calls : List Registration} {method : Method} {path : String} :
    (∃ found, (tableOf calls).find method path = .ok found) ↔
      ∃ c ∈ accepted calls empty, c.Serves method path := by
  simp only [Table.find_eq_ok_iff, Table.first?_isSome_iff, mem_tableOf_iff]
  constructor
  · rintro ⟨route, ⟨c, hc, hroute⟩, hm, hmatch⟩
    exact ⟨c, hc, (Registration.route?_eq_some_iff.1 hroute).2.1.trans hm, route, hroute, hmatch⟩
  · rintro ⟨c, hc, hm, route, hroute, hmatch⟩
    exact ⟨route, ⟨c, hc, hroute⟩, (Registration.route?_eq_some_iff.1 hroute).2.1.symm.trans hm, hmatch⟩

/-- Calls in another order that were accepted in one are accepted in the other. -/
theorem accepted_of_perm {calls order : List Registration} (h : order.Perm (accepted calls empty)) :
    accepted order empty = order := by
  refine holds_empty.accepted_of_apart (fun c hc => holds_empty.route?_of_accepted c (h.mem_iff.1 hc)) ?_
  rw [List.append_nil]
  exact ((h.filterMap _).pairwise_iff Route.Apart.symm).2 (holds_accepted calls).apart

/-- After any calls, those that failed included, a sealed table finds a route for a method and a path exactly if one
was accepted for the method and matches the path. It finds the only one that is to be preferred to all others of them.
When the accepted calls are made again in another order all of them are accepted again, and the table then finds and
allows the same. -/
theorem find_most_specific (calls : List Registration) :
    (accepted calls empty).Nodup ∧
    (∀ method path, (∃ found, (tableOf calls).find method path = .ok found) ↔
      ∃ c ∈ accepted calls empty, c.Serves method path) ∧
    (∀ method path found, (tableOf calls).find method path = .ok found →
      ∃ c ∈ accepted calls empty, c.Serves method path ∧ c.route? = some found.route ∧
        found.route.pattern.match? (splitPath path) = some found.params ∧
        ∀ d ∈ accepted calls empty, d ≠ c → d.Serves method path → c.Outranks d ∧ ¬ d.Outranks c) ∧
    ∀ order : List Registration, order.Perm (accepted calls empty) →
      accepted order empty = order ∧
      ∀ method path, (tableOf order).find method path = (tableOf calls).find method path ∧
        (tableOf order).allowed path = (tableOf calls).allowed path := by
  refine ⟨accepted_nodup calls, fun _ _ => find_isOk_iff, fun method path found hfound => ?_, fun order horder => ?_⟩
  · obtain ⟨hmem, hfit, hmatch, hbest⟩ :=
      (tableOf_searchable calls).first?_spec (Table.find_eq_ok_iff.1 hfound)
    obtain ⟨c, hc, hroute⟩ := mem_tableOf_iff.1 hmem
    have hmethod := (Registration.route?_eq_some_iff.1 hroute).2.1
    refine ⟨c, hc, ⟨hmethod.trans hfit.1, _, hroute, hfit.2⟩, hroute, hmatch, fun d hd hne hserves => ?_⟩
    obtain ⟨hdm, other, hother, hdmatch⟩ := hserves
    have hdmethod := (Registration.route?_eq_some_iff.1 hother).2.1
    rcases hbest other (mem_tableOf_iff.2 ⟨d, hd, hother⟩) ⟨hdmethod.symm.trans hdm, hdmatch⟩ with rfl | hout
    · exact absurd (Registration.route?_injective hother hroute) hne
    · refine ⟨⟨_, _, hroute, hother, hout⟩, ?_⟩
      rintro ⟨r, s, hr, hs, hout'⟩
      rw [hother] at hr
      rw [hroute] at hs
      cases hr
      cases hs
      exact hout.asymm hout'
  · have haccepted := accepted_of_perm horder
    have hperm : (tableOf order).routes.Perm (tableOf calls).routes := by
      refine (tableOf_perm order).trans (List.Perm.trans ?_ (tableOf_perm calls).symm)
      rw [haccepted]
      exact horder.filterMap _
    exact ⟨haccepted, fun method path =>
      ⟨(tableOf_searchable order).find_congr (tableOf_searchable calls) hperm method path,
        Table.allowed_congr hperm path⟩⟩

/-- A literal is found before a capture whichever of them is registered first; a second capture is refused. -/
theorem find_literal_in_either_order :
    accepted [⟨.get, "/a/:x", fun _ => ⟨0, .panicked none⟩⟩, ⟨.get, "/a/:y", fun _ => ⟨1, .panicked none⟩⟩,
      ⟨.get, "/a/b", fun _ => ⟨2, .panicked none⟩⟩] empty =
        [⟨.get, "/a/:x", fun _ => ⟨0, .panicked none⟩⟩, ⟨.get, "/a/b", fun _ => ⟨2, .panicked none⟩⟩] ∧
    (tableOf [⟨.get, "/a/b", fun _ => ⟨2, .panicked none⟩⟩, ⟨.get, "/a/:x", fun _ => ⟨0, .panicked none⟩⟩]).find
        .get "/a/b" =
      (tableOf [⟨.get, "/a/:x", fun _ => ⟨0, .panicked none⟩⟩, ⟨.get, "/a/:y", fun _ => ⟨1, .panicked none⟩⟩,
        ⟨.get, "/a/b", fun _ => ⟨2, .panicked none⟩⟩]).find .get "/a/b" := by
  have hfirst : accepted [⟨.get, "/a/:x", fun _ => ⟨0, .panicked none⟩⟩,
      ⟨.get, "/a/:y", fun _ => ⟨1, .panicked none⟩⟩, ⟨.get, "/a/b", fun _ => ⟨2, .panicked none⟩⟩] empty =
      [⟨.get, "/a/:x", fun _ => ⟨0, .panicked none⟩⟩, ⟨.get, "/a/b", fun _ => ⟨2, .panicked none⟩⟩] := by rfl
  refine ⟨hfirst, (((find_most_specific _).2.2.2 _ ?_).2 .get "/a/b").1⟩
  rw [hfirst]
  exact List.Perm.swap _ _ []

end Router

end Hypertext

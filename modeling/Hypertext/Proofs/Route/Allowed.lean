/-
Allowed methods: the Allow value of a path lists the methods with which the path can be requested, and dispatch agrees
with it. A request is refused for its method exactly if that is not listed; HEAD is served by a GET route where it has
none of its own, and OPTIONS without a route of its own runs no handler.
-/
import Hypertext.Dispatch
import Hypertext.Proofs.Route.Lookup

namespace Hypertext

/-! ## The Allow value -/

namespace Method

/-- The methods that an Allow field lists for a path with routes of these methods. -/
def listed (allowed : List Method) : List Method :=
  (allowed ++ (if allowed.contains .get then [Method.head] else []) ++ [Method.options]).eraseDups.mergeSort le

theorem mem_listed {allowed : List Method} {m : Method} :
    m ∈ listed allowed ↔ m ∈ allowed ∨ (m = .head ∧ .get ∈ allowed) ∨ m = .options := by
  rw [listed, List.mem_mergeSort, List.mem_eraseDups, List.mem_append, List.mem_append, List.mem_singleton, or_assoc]
  by_cases hget : .get ∈ allowed <;> simp [hget]

/-- The methods of an Allow field are in order, and none is there twice. -/
theorem listed_increasing (allowed : List Method) :
    (listed allowed).Pairwise fun a b => le a b = true ∧ a ≠ b := by
  have hnodup : (listed allowed).Nodup := (List.mergeSort_perm _ _).nodup_iff.2 (nodup_eraseDups _)
  exact (List.pairwise_mergeSort le_trans' le_total' _).and hnodup

/-- The order leaves no choice: what is listed is known from its members. -/
theorem listed_eq {allowed methods : List Method} (hincreasing : methods.Pairwise fun a b => le a b = true ∧ a ≠ b)
    (hmem : ∀ m, m ∈ listed allowed ↔ m ∈ methods) : listed allowed = methods := by
  refine List.Perm.eq_of_pairwise (fun a b _ _ => le_antisymm') ((listed_increasing _).imp And.left)
    (hincreasing.imp And.left) ?_
  exact (List.perm_ext_iff_of_nodup ((listed_increasing _).imp And.right) (hincreasing.imp And.right)).2 hmem

/-- A method that was read from its name is the only one of that name among others that were. -/
theorem mem_iff_text_mem {methods : List Method} (hread : ∀ m ∈ methods, ofText m.text = m) {s : String} :
    ofText s ∈ methods ↔ s ∈ methods.map text := by
  constructor
  · intro h
    exact List.mem_map.2 ⟨_, h, text_ofText s⟩
  · intro h
    obtain ⟨m, hm, rfl⟩ := List.mem_map.1 h
    rwa [hread m hm]

end Method

/-! ## Lookup -/

namespace Table

variable {t : Table} {method other : Method} {path : String}

/-- Some route of this method matches this path. -/
def Serves (t : Table) (method : Method) (path : String) : Prop := ∃ r ∈ t.routes, Fits method (splitPath path) r

theorem mem_allowed : method ∈ t.allowed path ↔ t.Serves method path := by
  rw [allowed, allowedParts, List.mem_mergeSort, List.mem_eraseDups, List.mem_map]
  constructor
  · rintro ⟨r, hr, hm⟩
    obtain ⟨hr, hmatch⟩ := List.mem_filter.1 hr
    exact ⟨r, hr, hm, hmatch⟩
  · rintro ⟨r, hr, hm, hmatch⟩
    exact ⟨r, List.mem_filter.2 ⟨hr, hmatch⟩, hm⟩

theorem exists_find_iff : (∃ found, t.find method path = .ok found) ↔ t.Serves method path := by
  rw [Serves, ← first?_isSome_iff]
  exact exists_congr fun _ => find_eq_ok_iff

theorem first?_eq_none (h : ¬ t.Serves method path) : t.first? method (splitPath path) = none := by
  rw [Option.eq_none_iff_forall_ne_some]
  exact fun found hfound => h (first?_isSome_iff.1 ⟨found, hfound⟩)

/-- No route at all matches the path. -/
theorem find_of_none (h : ∀ m, ¬ t.Serves m path) : t.find method path = .error (.notFound path) := by
  have hnil : t.allowed path = [] := List.eq_nil_iff_forall_not_mem.2 fun m hm => h m (mem_allowed.1 hm)
  rw [find, first?_eq_none (h method), hnil]

/-- Only routes of other methods match the path. -/
theorem find_of_other (h : ¬ t.Serves method path) (hother : t.Serves other path) :
    t.find method path = .error (.methodNotAllowed method path (t.allowed path)) := by
  rw [find, first?_eq_none h]
  cases ha : t.allowed path with
  | nil => exact absurd (mem_allowed.2 hother) (by simp [ha])
  | cons m methods => rfl

end Table

/-! ## Dispatch -/

namespace Dispatcher

open Method

variable {d : Dispatcher} {q : Request} {found : Found} {e : DispatchError}

/-- The methods that the Allow value of the request's path lists. -/
def listed (d : Dispatcher) (q : Request) : List Method := Method.listed (d.table.allowed q.path)

theorem mem_listed {m : Method} : m ∈ d.listed q ↔
    d.table.Serves m q.path ∨ (m = .head ∧ d.table.Serves .get q.path) ∨ m = .options := by
  rw [listed, Method.mem_listed, Table.mem_allowed, Table.mem_allowed]

/-- All that can be done with a request: a route of its method runs, or nothing matches the path, or a GET route runs
for HEAD, or OPTIONS is answered, or the method is refused. -/
inductive Planned (d : Dispatcher) (q : Request) : Plan → Prop
  | own {found : Found} (hfound : d.table.find q.method q.path = .ok found) : Planned d q (run q found)
  | unknown (hnone : ∀ m, ¬ d.table.Serves m q.path) : Planned d q (.answer (.error (.notFound q.path)))
  | viaGet {found : Found} (hmethod : q.method = .head) (hnone : ¬ d.table.Serves .head q.path)
      (hfound : d.table.find .get q.path = .ok found) : Planned d q (run q found)
  | options {m : Method} (hmethod : q.method = .options) (hnone : ¬ d.table.Serves .options q.path)
      (hother : d.table.Serves m q.path) :
      Planned d q (.answer (.ok ((Response.new .noContent).withHeader "Allow" (allowField (d.table.allowed q.path)))))
  | refused {m : Method} (hmethod : q.method ∉ d.listed q) (hother : d.table.Serves m q.path) :
      Planned d q (.answer (.error (.methodNotAllowed q.method q.path (d.table.allowed q.path))))

theorem plan_of_find (h : d.table.find q.method q.path = .ok found) : d.plan q = run q found := by
  rw [plan, h]

theorem planned (d : Dispatcher) (q : Request) : Planned d q (d.plan q) := by
  by_cases hown : d.table.Serves q.method q.path
  · obtain ⟨found, hfound⟩ := Table.exists_find_iff.2 hown
    rw [plan, hfound]
    exact .own hfound
  by_cases hany : ∃ m, d.table.Serves m q.path
  · obtain ⟨m, hm⟩ := hany
    rw [plan, Table.find_of_other hown hm]
    dsimp only
    split_ifs with hguard hoptions
    · rw [Bool.and_eq_true, beq_iff_eq, List.contains_iff_mem, Table.mem_allowed] at hguard
      obtain ⟨found, hfound⟩ := Table.exists_find_iff.2 hguard.2
      rw [hfound]
      exact .viaGet hguard.1 (hguard.1 ▸ hown) hfound
    · rw [beq_iff_eq] at hoptions
      exact .options hoptions (hoptions ▸ hown) hm
    · rw [Bool.and_eq_true, beq_iff_eq, List.contains_iff_mem, Table.mem_allowed] at hguard
      rw [beq_iff_eq] at hoptions
      refine .refused (fun hmem => ?_) hm
      rcases mem_listed.1 hmem with h | h | h
      · exact hown h
      · exact hguard h
      · exact hoptions h
  · push Not at hany
    rw [plan, Table.find_of_none hany]
    exact .unknown hany

/-- A handler that runs ends with a response, or too late, or with a panic. -/
theorem dispatch_of_run (hplan : d.plan q = run q found) (he : d.dispatch q = .error e) :
    e.closesConnection = true := by
  rw [dispatch, hplan, run] at he
  dsimp only at he
  split at he
  · cases hc : (found.route.endpoint ⟨q, found.params⟩).completion with
    | response r => rw [hc] at he; cases he
    | panicked text => rw [hc] at he; cases he; rfl
    | failed error =>
      rw [hc] at he
      cases error with
      | unrecoverable reason => cases he; rfl
      | _ => cases he
  · cases he
    rfl

theorem dispatch_of_answer {outcome : Except DispatchError Response} (hplan : d.plan q = .answer outcome) :
    d.dispatch q = outcome := by
  rw [dispatch, hplan]

/-- A request is unknown exactly if no route of any method matches its path. -/
theorem dispatch_eq_notFound_iff {path : String} :
    d.dispatch q = .error (.notFound path) ↔ path = q.path ∧ ∀ m, ¬ d.table.Serves m q.path := by
  have hp := planned d q
  generalize hplan : d.plan q = plan at hp
  cases hp with
  | own hfound =>
    exact ⟨fun h => absurd (dispatch_of_run hplan h) Bool.false_ne_true,
      fun h => absurd (Table.exists_find_iff.1 ⟨_, hfound⟩) (h.2 _)⟩
  | unknown hnone =>
    rw [dispatch_of_answer hplan]
    exact ⟨fun h => by cases h; exact ⟨rfl, hnone⟩, fun h => by rw [h.1]⟩
  | viaGet _ _ hfound =>
    exact ⟨fun h => absurd (dispatch_of_run hplan h) Bool.false_ne_true,
      fun h => absurd (Table.exists_find_iff.1 ⟨_, hfound⟩) (h.2 _)⟩
  | options _ _ hother =>
    rw [dispatch_of_answer hplan]
    exact ⟨fun h => (by cases h), fun h => absurd hother (h.2 _)⟩
  | refused _ hother =>
    rw [dispatch_of_answer hplan]
    exact ⟨fun h => (by cases h), fun h => absurd hother (h.2 _)⟩

/-- A request is refused for its method exactly if some route matches its path and the Allow value does not list the
method. -/
theorem dispatch_eq_methodNotAllowed_iff {method : Method} {path : String} {allowed : List Method} :
    d.dispatch q = .error (.methodNotAllowed method path allowed) ↔
      (method = q.method ∧ path = q.path ∧ allowed = d.table.allowed q.path) ∧
        q.method ∉ d.listed q ∧ ∃ m, d.table.Serves m q.path := by
  have hp := planned d q
  generalize hplan : d.plan q = plan at hp
  cases hp with
  | own hfound =>
    have hlisted : q.method ∈ d.listed q := mem_listed.2 (.inl (Table.exists_find_iff.1 ⟨_, hfound⟩))
    exact ⟨fun h => absurd (dispatch_of_run hplan h) Bool.false_ne_true, fun h => absurd hlisted h.2.1⟩
  | unknown hnone =>
    rw [dispatch_of_answer hplan]
    exact ⟨fun h => (by cases h), fun h => absurd h.2.2 (not_exists.2 hnone)⟩
  | viaGet hmethod _ hfound =>
    have hlisted : q.method ∈ d.listed q := mem_listed.2 (.inr (.inl ⟨hmethod, Table.exists_find_iff.1 ⟨_, hfound⟩⟩))
    exact ⟨fun h => absurd (dispatch_of_run hplan h) Bool.false_ne_true, fun h => absurd hlisted h.2.1⟩
  | options hmethod _ _ =>
    have hlisted : q.method ∈ d.listed q := mem_listed.2 (.inr (.inr hmethod))
    rw [dispatch_of_answer hplan]
    exact ⟨fun h => (by cases h), fun h => absurd hlisted h.2.1⟩
  | refused hmethod hother =>
    rw [dispatch_of_answer hplan]
    constructor
    · intro h
      cases h
      exact ⟨⟨rfl, rfl, rfl⟩, hmethod, _, hother⟩
    · rintro ⟨⟨rfl, rfl, rfl⟩, -, -⟩
      rfl

/-- HEAD runs what GET finds where no HEAD route matches. -/
theorem plan_of_head (hmethod : q.method = .head) (hnone : ¬ d.table.Serves .head q.path)
    (hget : d.table.Serves .get q.path) :
    ∃ found, d.table.find .get q.path = .ok found ∧ d.plan q = run q found := by
  have hp := planned d q
  generalize hplan : d.plan q = plan at hp
  cases hp with
  | own hfound => exact absurd (Table.exists_find_iff.1 ⟨_, hmethod ▸ hfound⟩) hnone
  | unknown hnone => exact absurd hget (hnone _)
  | viaGet _ _ hfound => exact ⟨_, hfound, rfl⟩
  | options hmethod' _ _ => cases hmethod.symm.trans hmethod'
  | refused hmethod' _ => exact absurd (mem_listed.2 (.inr (.inl ⟨hmethod, hget⟩))) hmethod'

/-- OPTIONS is answered without a handler where no OPTIONS route matches. -/
theorem plan_of_options (hmethod : q.method = .options) (hnone : ¬ d.table.Serves .options q.path) :
    d.plan q = .answer (d.dispatch q) ∧ ((∃ m, d.table.Serves m q.path) →
      d.dispatch q = .ok ((Response.new .noContent).withHeader "Allow" (allowField (d.table.allowed q.path)))) := by
  have hp := planned d q
  generalize hplan : d.plan q = plan at hp
  cases hp with
  | own hfound => exact absurd (Table.exists_find_iff.1 ⟨_, hmethod ▸ hfound⟩) hnone
  | unknown hnone =>
    exact ⟨by rw [dispatch_of_answer hplan], fun ⟨m, hm⟩ => absurd hm (hnone m)⟩
  | viaGet hmethod' _ _ => cases hmethod.symm.trans hmethod'
  | options _ _ _ => exact ⟨by rw [dispatch_of_answer hplan], fun _ => dispatch_of_answer hplan⟩
  | refused hmethod' _ => exact absurd (mem_listed.2 (.inr (.inr hmethod))) hmethod'

theorem getAll_withAllow {r : Response} (hnone : r.headers.getAll "Allow" = []) (value : String) :
    (r.withHeader "Allow" value).headers.getAll "Allow" = [value] := by
  rw [Response.withHeader, Headers.getAll_add, hnone, if_pos (Text.sameName_refl _), List.nil_append]

theorem allow_of_methodNotAllowed (method : Method) (path : String) (allowed : List Method) :
    (DispatchError.methodNotAllowed method path allowed).response.headers.getAll "Allow" = [allowField allowed] := by
  have hnone : (Response.ofError .methodNotAllowed Status.methodNotAllowed.reason).headers.getAll "Allow" = [] := by
    have hname : Text.sameName "Content-Type" "Allow" = false := by decide
    rw [Response.ofError, Response.withBody, Response.withHeader, Headers.getAll_add, hname]
    rfl
  exact getAll_withAllow hnone _

theorem allow_of_options (allowed : List Method) :
    ((Response.new .noContent).withHeader "Allow" (allowField allowed)).headers.getAll "Allow" =
      [allowField allowed] :=
  getAll_withAllow rfl _

/-- Dispatch and the Allow value of a path agree. A request is unknown if no route of any method matches its path, and
otherwise it is refused for its method exactly if that is not listed. What is listed, in order and once, are the methods
with a route for the path, HEAD where GET is one of them, and OPTIONS; the refusal and the answer to OPTIONS both carry
that list. HEAD without a route of its own runs what GET finds, and OPTIONS without one runs no handler. Where all
methods were read from their names a method is listed exactly if its name is. -/
theorem dispatch_agrees (d : Dispatcher) (q : Request) :
    (∀ path, d.dispatch q = .error (.notFound path) ↔ path = q.path ∧ ∀ m, ¬ d.table.Serves m q.path) ∧
    ((∃ m, d.table.Serves m q.path) →
      ((∃ method path allowed, d.dispatch q = .error (.methodNotAllowed method path allowed)) ↔
        q.method ∉ d.listed q)) ∧
    ((d.listed q).Pairwise fun a b => Method.le a b = true ∧ a ≠ b) ∧
    (∀ m, m ∈ d.listed q ↔
      d.table.Serves m q.path ∨ (m = .head ∧ d.table.Serves .get q.path) ∨ m = .options) ∧
    (∀ method path allowed, d.dispatch q = .error (.methodNotAllowed method path allowed) →
      (DispatchError.methodNotAllowed method path allowed).response.headers.getAll "Allow" =
        [Text.join ", " ((d.listed q).map Method.text)]) ∧
    (q.method = .options → ¬ d.table.Serves .options q.path →
      (∃ outcome, d.plan q = .answer outcome) ∧ ((∃ m, d.table.Serves m q.path) →
        ∃ r, d.dispatch q = .ok r ∧ r.headers.getAll "Allow" = [Text.join ", " ((d.listed q).map Method.text)])) ∧
    (q.method = .head → ¬ d.table.Serves .head q.path → d.table.Serves .get q.path →
      ∃ found, d.table.find .get q.path = .ok found ∧ d.plan q = .run (found.route.endpoint ⟨q, found.params⟩)) ∧
    ((∀ r ∈ d.table.routes, Method.ofText r.method.text = r.method) → ∀ name, q.method = .ofText name →
      (q.method ∈ d.listed q ↔ name ∈ (d.listed q).map Method.text)) := by
  refine ⟨fun path => dispatch_eq_notFound_iff, fun hany => ⟨?_, fun h => ?_⟩, listed_increasing _, fun m => mem_listed,
    fun method path allowed h => ?_, fun hmethod hnone => ?_, plan_of_head, fun hread name hname => ?_⟩
  · rintro ⟨method, path, allowed, h⟩
    exact (dispatch_eq_methodNotAllowed_iff.1 h).2.1
  · exact ⟨_, _, _, dispatch_eq_methodNotAllowed_iff.2 ⟨⟨rfl, rfl, rfl⟩, h, hany⟩⟩
  · obtain ⟨⟨rfl, rfl, rfl⟩, -⟩ := dispatch_eq_methodNotAllowed_iff.1 h
    exact allow_of_methodNotAllowed _ _ _
  · obtain ⟨hplan, hdispatch⟩ := plan_of_options hmethod hnone
    exact ⟨⟨_, hplan⟩, fun hany => ⟨_, hdispatch hany, allow_of_options _⟩⟩
  · rw [hname]
    refine mem_iff_text_mem fun m hm => ?_
    rcases mem_listed.1 hm with ⟨r, hr, rfl, -⟩ | ⟨rfl, -⟩ | rfl
    · exact hread r hr
    · rfl
    · rfl

/-- A path with a GET route and one of a method of its own: OPTIONS lists both with HEAD and OPTIONS, and HEAD runs the
GET route. -/
theorem dispatch_agrees_of_purge :
    let t : Table := ⟨[⟨.get, ⟨"/:x", [.capture "x"]⟩, fun _ => ⟨0, .panicked none⟩⟩,
      ⟨.custom "PURGE", ⟨"/a", [.literal "a"]⟩, fun _ => ⟨0, .panicked none⟩⟩]⟩
    let d : Dispatcher := ⟨t, .ofMillis 1000⟩
    (∃ r, d.dispatch (.new .options "/a") = .ok r ∧ r.headers.getAll "Allow" = ["GET, HEAD, OPTIONS, PURGE"]) ∧
    ∃ found, t.find .get "/a" = .ok found ∧
      d.plan (.new .head "/a") = .run (found.route.endpoint ⟨.new .head "/a", found.params⟩) := by
  intro t d
  have hget : t.Serves .get "/a" := ⟨_, List.mem_cons_self, rfl, rfl⟩
  have hpurge : t.Serves (.custom "PURGE") "/a" := ⟨_, List.mem_cons_of_mem _ List.mem_cons_self, rfl, rfl⟩
  have hnone : ∀ m, m ≠ .get → m ≠ .custom "PURGE" → ¬ t.Serves m "/a" := by
    rintro m hm hm' ⟨r, hr, rfl, -⟩
    rcases List.mem_cons.1 hr with rfl | hr
    · exact hm rfl
    · rw [List.mem_singleton.1 hr] at hm'
      exact hm' rfl
  obtain ⟨r, hr, hallow⟩ :=
    ((dispatch_agrees d (.new .options "/a")).2.2.2.2.2.1 rfl (hnone _ (by decide) (by decide))).2 ⟨_, hget⟩
  refine ⟨⟨r, hr, hallow.trans ?_⟩, ?_⟩
  · have hmem : ∀ m, m ∈ d.listed (.new .options "/a") ↔ m ∈ [.get, Method.head, Method.options, .custom "PURGE"] := by
      intro m
      rw [mem_listed]
      constructor
      · rintro (h | ⟨rfl, -⟩ | rfl)
        · by_contra hm
          simp only [List.mem_cons, List.not_mem_nil, or_false, not_or] at hm
          exact hnone m hm.1 hm.2.2.2 h
        · simp
        · simp
      · intro h
        simp only [List.mem_cons, List.not_mem_nil, or_false] at h
        rcases h with rfl | rfl | rfl | rfl
        · exact .inl hget
        · exact .inr (.inl ⟨rfl, hget⟩)
        · exact .inr (.inr rfl)
        · exact .inl hpurge
    have hlisted : d.listed (.new .options "/a") = [.get, .head, .options, .custom "PURGE"] :=
      listed_eq (by decide) hmem
    rw [hlisted]
    rfl
  · exact (dispatch_agrees d (.new .head "/a")).2.2.2.2.2.2.1 rfl (hnone _ (by decide) (by decide)) hget

end Dispatcher

end Hypertext

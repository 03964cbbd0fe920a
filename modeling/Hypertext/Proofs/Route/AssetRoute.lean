/-
What a route for assets serves. A path is cut into its parts before anything is captured, so slashes at its end are lost:
below the base a path stands for the asset with that very key, and only the base itself stands for an index page. With a
literal base the requests for the keys are all answered, and no others.
-/
import Hypertext.Proofs.Message.RequestHead
import Hypertext.Proofs.Route.Allowed
import Hypertext.Proofs.Route.FileRoute
import Hypertext.Proofs.Route.Reachability
import Hypertext.Proofs.Route.Retention

namespace Hypertext

/-! ## Joined parts -/

/-- Parts of paths that are joined do not end with a slash. -/
theorem getLast?_join_ne {parts : List String} (h : ∀ part ∈ parts, part ≠ "" ∧ '/' ∉ part.toList) :
    (Text.join "/" parts).toList.getLast? ≠ some '/' := by
  intro hlast
  obtain ⟨front, hfront⟩ := List.getLast?_eq_some_iff.1 hlast
  have hne : parts ≠ [] := by
    rintro rfl
    cases hlast
  have hjoin : Text.join "/" parts = String.ofList front ++ "/" ++ "" := by
    rw [← String.toList_inj, hfront]
    simp
  have hsplit : Text.split '/' (Text.join "/" parts) = parts := Text.split_join (fun part hp => (h part hp).2) hne
  -- what stands after the last slash would be an empty part
  have hempty : "" ∈ parts := by
    rw [← hsplit, hjoin]
    exact (Text.split_append '/' (String.ofList front) "").symm ▸ List.mem_append_right _ List.mem_cons_self
  exact (h "" hempty).1 rfl

/-- A text is joined again from its pieces. -/
theorem Text.join_split (s : String) : Text.join "/" (Text.split '/' s) = s := by
  rw [← String.toList_inj, Text.join, Text.split, String.toList_intercalate, List.map_map]
  have hpieces : (s.toList.splitOn '/').map (String.toList ∘ String.ofList) = s.toList.splitOn '/' :=
    (List.map_congr_left fun cs _ => String.toList_ofList).trans (List.map_id _)
  rw [hpieces]
  exact List.intercalate_splitOn _

/-! ## Literal patterns -/

namespace Pattern

/-- A part that begins with neither a colon nor a star stands for itself. -/
def IsLiteral (part : String) : Prop := part.toList.head? ≠ some ':' ∧ part.toList.head? ≠ some '*'

theorem IsLiteral.readSegment {part : String} (h : IsLiteral part) : Pattern.readSegment part = .ok (.literal part) := by
  unfold Pattern.readSegment
  obtain ⟨hcolon, hstar⟩ := h
  split <;> simp_all

theorem readSegments_literals {part name : String} (hpart : readSegment part = .ok (.wildcard name)) :
    ∀ {parts seen : List String}, (∀ p ∈ parts, IsLiteral p) → name ∉ seen →
      readSegments seen (parts ++ [part]) = .ok (parts.map .literal ++ [.wildcard name])
  | [], seen, _, hname => by
    simp [readSegments, hpart, hname, bind, Except.bind, Segment.name?, Segment.isWildcard, pure, Except.pure]
  | p :: parts, seen, hparts, hname => by
    have hread := (hparts p List.mem_cons_self).readSegment
    have hlater := readSegments_literals hpart (fun p' hp' => hparts p' (List.mem_cons_of_mem _ hp')) hname
    simp [readSegments, hread, hlater, bind, Except.bind, Segment.name?, Segment.isWildcard, pure, Except.pure]

theorem matchSegments_literals (name : String) (rest : List String) (params : PathParams) : ∀ parts : List String,
    matchSegments (parts.map .literal ++ [.wildcard name]) (parts ++ rest) params =
      some (params.insert name (Text.join "/" rest))
  | [] => by cases rest <;> rfl
  | p :: parts => by
    rw [List.map_cons, List.cons_append, List.cons_append, matchSegments, if_pos (beq_self_eq_true p)]
    exact matchSegments_literals name rest params parts

end Pattern

/-! ## The paths of a file route -/

namespace FileRoute

variable {base path : String} {t : Table}

/-- The path is matched by the file route at the base. -/
def Within (base path : String) : Prop :=
  ∃ p params, Pattern.parse (pattern base) = .ok p ∧ p.match? (splitPath path) = some params

/-- No GET route that matches the path is more specific than the file route at the base. -/
def Preferred (t : Table) (base path : String) : Prop :=
  ∀ p, Pattern.parse (pattern base) = .ok p → t.Unrivalled .get p path

theorem preferred_of_single {r : Route Handler} (hroutes : t.routes = [r])
    (hr : Pattern.parse (pattern base) = .ok r.pattern) (path : String) : Preferred t base path := by
  intro p hp s hs _ hout
  obtain rfl : p = r.pattern := Except.ok.inj (hp.symm.trans hr)
  rw [hroutes, List.mem_singleton] at hs
  subst hs
  exact hout.asymm hout

/-- The base captures nothing. -/
def Literal (base : String) : Prop := ∀ part ∈ splitPath base, Pattern.IsLiteral part

theorem literal_of_single {part : String} (hbase : splitPath base = [part]) (hpart : Pattern.IsLiteral part) :
    Literal base := by
  intro part' hpart'
  rw [hbase, List.mem_singleton] at hpart'
  exact hpart' ▸ hpart

theorem Literal.within (h : Literal base) (hstart : (pattern base).toList.head? = some '/') {rest : List String}
    (hpath : splitPath path = splitPath base ++ rest) : Within base path := by
  have hlast : Pattern.readSegment "*path" = .ok (.wildcard pathName) := rfl
  have hread := Pattern.readSegments_literals hlast h (List.not_mem_nil (a := pathName))
  rw [← splitPath_pattern] at hread
  have hmatch := Pattern.matchSegments_literals pathName rest .empty (splitPath base)
  rw [← hpath] at hmatch
  exact ⟨⟨pattern base, _⟩, _, Pattern.parse_eq_ok_iff.2 ⟨hstart, hread, rfl⟩, hmatch⟩

theorem below_of_splitPath {rest : List String} (h : splitPath path = splitPath base ++ rest) :
    below base path = Text.join "/" rest := by
  rw [below, h, List.drop_left]

/-- The part that is left below never ends with a slash. -/
theorem getLast?_below_ne (base path : String) : (below base path).toList.getLast? ≠ some '/' :=
  getLast?_join_ne fun _ hpart => mem_splitPath (List.mem_of_mem_drop hpart)

end FileRoute

/-! ## Assets -/

namespace Assets

open FileRoute

variable {base : String} {entries : List (String × Bytes)} {D : Dispatcher} {q : Request}

/-- What is served for a key: the asset, or that there is none. -/
inductive Answers (a : Assets) (key : String) : Except DispatchError Response → Prop
  | found {r : Response} (hkey : a.get? key = some r.body) (hstatus : r.status = .ok) : Answers a key (.ok r)
  | missing {r : Response} (hkey : a.get? key = none) (hstatus : r.status = .notFound) : Answers a key (.ok r)

variable {a : Assets} {k k' : String} {outcome : Except DispatchError Response}

/-- An outcome is what is served for keys of the same asset only. -/
theorem Answers.get?_eq (h : a.Answers k outcome) (h' : a.Answers k' outcome) : a.get? k' = a.get? k := by
  cases h with
  | found hkey hstatus =>
    cases h' with
    | found hkey' _ => rw [hkey, hkey']
    | missing _ hstatus' => cases hstatus.symm.trans hstatus'
  | missing hkey hstatus =>
    cases h' with
    | found _ hstatus' => cases hstatus.symm.trans hstatus'
    | missing hkey' _ => rw [hkey, hkey']

theorem Answers.congr (h : a.Answers k outcome) (hkeys : a.get? k' = a.get? k) : a.Answers k' outcome := by
  cases h with
  | found hkey hstatus => exact .found (hkeys.trans hkey) hstatus
  | missing hkey hstatus => exact .missing (hkeys.trans hkey) hstatus

theorem Answers.of_some {data : Bytes} (h : a.Answers k outcome) (hkey : a.get? k = some data) :
    ∃ r, outcome = .ok r ∧ r.status = .ok ∧ r.body = data := by
  cases h with
  | found hbody hstatus => exact ⟨_, rfl, hstatus, Option.some.inj (hbody.symm.trans hkey)⟩
  | missing hnone _ => cases hnone.symm.trans hkey

theorem Answers.of_none (h : a.Answers k outcome) (hkey : a.get? k = none) :
    ∃ r, outcome = .ok r ∧ r.status = .notFound := by
  cases h with
  | found hbody _ => cases hbody.symm.trans hkey
  | missing _ hstatus => exact ⟨_, rfl, hstatus⟩

/-- Serving a path comes to what is served for its key. -/
theorem answers_serve (a : Assets) (relative : String) : a.Answers (key relative)
    (match a.serve relative with
      | .ok r => .ok r
      | .error e => Dispatcher.conclude (.failed e)) := by
  unfold serve
  cases hkey : a.get? (key relative) with
  | none => exact .missing hkey rfl
  | some data => exact .found hkey rfl

/-- The name of the page that stands for a directory. -/
def indexPage : String := "index.html"

theorem key_below (base path : String) :
    key (below base path) = if below base path = "" then indexPage else below base path := by
  have hlast := getLast?_below_ne base path
  unfold key
  by_cases hempty : below base path = "" <;> simp [hempty, hlast, indexPage]

/-- A dispatcher whose router was given these assets, and whose handlers have some time. -/
structure Serving (base : String) (entries : List (String × Bytes)) (D : Dispatcher) : Prop where
  sealed : Builder.SealsWith (.serveAssets base entries) D.table
  limit : 0 < D.limit.millis

/-- A GET request that is given to the assets: their route matches its path, and no other route has to be preferred. -/
structure Asked (base : String) (D : Dispatcher) (q : Request) : Prop where
  method : q.method = .get
  within : Within base q.path
  preferred : Preferred D.table base q.path

theorem Serving.exists_runs (h : Serving base entries D) (hq : Asked base D q) :
    ∃ found, FileRoute.Runs D base (ofList entries).handler q found := by
  obtain ⟨p, hp, hmem⟩ := h.sealed.mem_routes rfl
  obtain ⟨p', params, hp', hmatch⟩ := hq.within
  obtain rfl : p = p' := Except.ok.inj (hp.symm.trans hp')
  have hfind : D.table.find .get q.path = .ok ⟨⟨.get, p, (ofList entries).handler⟩, params⟩ :=
    h.sealed.searchable.find_of_unrivalled hmem hmatch (hq.preferred p hp)
  exact ⟨_, hfind, Registration.route?_eq_some_iff.2 ⟨hp, rfl, rfl⟩, Dispatcher.plan_of_find (hq.method ▸ hfind)⟩

/-- A request is answered with the asset that is left of its path, and with the index page if nothing is. -/
theorem Serving.answers (h : Serving base entries D) (hq : Asked base D q) :
    (ofList entries).Answers (if below base q.path = "" then indexPage else below base q.path) (D.dispatch q) := by
  obtain ⟨found, hruns⟩ := h.exists_runs hq
  rw [hruns.dispatch, if_pos h.limit, Context.param?, hruns.param, ← key_below]
  exact answers_serve _ _

/-! ## Index pages -/

/-- The key of the index page of a directory. -/
def indexOf (directory : String) : String := if directory = "" then indexPage else directory ++ "/" ++ indexPage

/-- The base itself is answered with its index page. Below it a path is answered with the asset that has its parts as the
key, whether or not slashes follow them: so a directory is answered with its index page only if the two are the same. -/
theorem Serving.answers_directory (h : Serving base entries D) (hq : Asked base D q) :
    (ofList entries).Answers (if below base q.path = "" then indexPage else below base q.path) (D.dispatch q) ∧
      ((ofList entries).Answers (indexOf (below base q.path)) (D.dispatch q) ↔
        below base q.path = "" ∨
          (ofList entries).get? (indexOf (below base q.path)) = (ofList entries).get? (below base q.path)) := by
  have hanswers := h.answers hq
  refine ⟨hanswers, fun hindex => or_iff_not_imp_left.2 fun hne => ?_, ?_⟩
  · rw [if_neg hne] at hanswers
    exact hanswers.get?_eq hindex
  · rintro (hempty | hsame)
    · rw [indexOf, if_pos hempty]
      rwa [if_pos hempty] at hanswers
    · by_cases hempty : below base q.path = ""
      · rw [indexOf, if_pos hempty]
        rwa [if_pos hempty] at hanswers
      · rw [if_neg hempty] at hanswers
        exact hanswers.congr hsame

/-! ### A router with assets alone -/

/-- A server of these assets and of nothing else. -/
def site (base : String) (entries : List (String × Bytes)) : Dispatcher :=
  ⟨(Builder.performAll [.serveAssets base entries] .empty).table, .ofMillis 1000⟩

theorem serving_site (h : (Builder.perform (.serveAssets base entries) .empty).1 = .ok none) :
    Serving base entries (site base entries) where
  sealed := Builder.sealsWith_single h
  limit := by
    rw [site, Duration.millis_ofMillis]
    decide

/-- A page in a directory. -/
def guide : List (String × Bytes) := [("docs/index.html", Bytes.ofText "page")]

theorem serving_guide : Serving "/ui" guide (site "/ui" guide) := serving_site rfl

theorem routes_guide : (site "/ui" guide).table.routes =
    [⟨.get, ⟨"/ui/*path", [.literal "ui", .wildcard "path"]⟩, (ofList guide).handler⟩] := rfl

theorem preferred_guide (path : String) : Preferred (site "/ui" guide).table "/ui" path := by
  have hp : Pattern.parse (pattern "/ui") = .ok ⟨"/ui/*path", [.literal "ui", .wildcard "path"]⟩ := rfl
  exact preferred_of_single routes_guide hp path

theorem asked_guide : Asked "/ui" (site "/ui" guide) (.new .get "/ui/docs/") where
  method := rfl
  within := ⟨⟨"/ui/*path", [.literal "ui", .wildcard "path"]⟩, _, rfl, rfl⟩
  preferred := preferred_guide _

/-- The page of a directory is served under its own name only. -/
theorem answers_directory_of_guide :
    (ofList guide).Answers "docs" ((site "/ui" guide).dispatch (.new .get "/ui/docs/")) ∧
      ¬ (ofList guide).Answers "docs/index.html" ((site "/ui" guide).dispatch (.new .get "/ui/docs/")) := by
  have hall := serving_guide.answers_directory asked_guide
  have hbelow : below "/ui" (Request.new .get "/ui/docs/").path = "docs" := by decide
  rw [hbelow] at hall
  refine ⟨hall.1, fun hindex => ?_⟩
  rcases hall.2.1 hindex with hempty | hsame
  · exact absurd hempty (by decide)
  · exact absurd hsame (by decide)

/-- There is an index page in the directory, and a request for the directory is answered with 404. -/
theorem directory_page_missing :
    Serving "/ui" guide (site "/ui" guide) ∧ Asked "/ui" (site "/ui" guide) (.new .get "/ui/docs/") ∧
      (Request.new .get "/ui/docs/").path = "/ui/docs/" ∧
        (ofList guide).get? "docs/index.html" = some (Bytes.ofText "page") ∧
          ∃ r, (site "/ui" guide).dispatch (.new .get "/ui/docs/") = .ok r ∧ r.status = .notFound :=
  ⟨serving_guide, asked_guide, rfl, rfl, (serving_guide.answers asked_guide).of_none rfl⟩

/-! ## Keys -/

/-- The key of an asset that is listed under a name. -/
def keyOf (name : String) : String := Text.trimStart '/' name

/-- Of several assets with one key the last counts. -/
theorem get?_ofList_of_last {listed later : List (String × Bytes)} {name : String} {data : Bytes}
    (hlater : ∀ e ∈ later, keyOf e.1 ≠ keyOf name) :
    (ofList (listed ++ (name, data) :: later)).get? (keyOf name) = some data := by
  have hnone : (later.map fun e => (Text.trimStart '/' e.1, e.2)).reverse.find? (·.1 == keyOf name) = none := by
    rw [List.find?_eq_none]
    intro e he
    obtain ⟨e', he', rfl⟩ := List.mem_map.1 (List.mem_reverse.1 he)
    simpa [keyOf] using hlater e' he'
  rw [get?, ofList, List.map_append, List.map_cons, List.reverse_append, List.reverse_cons, List.append_assoc,
    List.find?_append, hnone, Option.none_or, List.singleton_append, List.find?_cons_of_pos (by simp [keyOf])]
  rfl

theorem get?_ofList_eq_none {key : String} (h : ∀ e ∈ entries, keyOf e.1 ≠ key) : (ofList entries).get? key = none := by
  rw [get?, Option.map_eq_none_iff, List.find?_eq_none]
  intro e he
  obtain ⟨e', he', rfl⟩ := List.mem_map.1 (List.mem_reverse.1 he)
  simpa [keyOf] using h e' he'

theorem Serving.asked (h : Serving base entries D) (hbase : Literal base) {rest : List String} (hmethod : q.method = .get)
    (hpath : splitPath q.path = splitPath base ++ rest) (hpreferred : Preferred D.table base q.path) :
    Asked base D q := by
  obtain ⟨p, hp, -⟩ := h.sealed.mem_routes rfl
  exact ⟨hmethod, hbase.within (Pattern.parse_eq_ok_iff.1 hp).1 hpath, hpreferred⟩

/-- Below a literal base, without a question mark, each key with no empty piece has its request, which is answered with the
asset that was listed last; and a path that leaves no key is answered with 404. -/
theorem Serving.reaches (h : Serving base entries D) (hbase : Literal base) (hplain : '?' ∉ base.toList) :
    (∀ listed name data later, entries = listed ++ (name, data) :: later → (∀ e ∈ later, keyOf e.1 ≠ keyOf name) →
      (∀ piece ∈ Text.split '/' (keyOf name), piece ≠ "") → '?' ∉ (keyOf name).toList →
        Preferred D.table base (base ++ "/" ++ keyOf name) →
          ∃ r, D.dispatch (.new .get (base ++ "/" ++ keyOf name)) = .ok r ∧ r.status = .ok ∧ r.body = data) ∧
    ∀ q rest, q.method = .get → rest ≠ [] → splitPath q.path = splitPath base ++ rest →
      (∀ e ∈ entries, keyOf e.1 ≠ Text.join "/" rest) → Preferred D.table base q.path →
        ∃ r, D.dispatch q = .ok r ∧ r.status = .notFound := by
  constructor
  · intro listed name data later hentries hlater hpieces hname hpreferred
    have hchars : ∀ c ∈ (base ++ "/" ++ keyOf name).toList, c ≠ '?' := by
      rintro c hc rfl
      rw [String.toList_append, String.toList_append, List.mem_append, List.mem_append] at hc
      rcases hc with (hc | hc) | hc
      · exact hplain hc
      · exact absurd hc (by decide)
      · exact hname hc
    have hpath : (Request.new .get (base ++ "/" ++ keyOf name)).path = base ++ "/" ++ keyOf name := by
      rw [Request.new, Request.splitTarget_path hchars]
    have hkey : splitPath (keyOf name) = Text.split '/' (keyOf name) :=
      List.filter_eq_self.2 fun piece hpiece => by simpa using hpieces piece hpiece
    have hparts : splitPath (base ++ "/" ++ keyOf name) = splitPath base ++ Text.split '/' (keyOf name) := by
      rw [splitPath_append, hkey]
    have hasked : Asked base D (.new .get (base ++ "/" ++ keyOf name)) :=
      h.asked hbase rfl (by rw [hpath, hparts]) (by rwa [hpath])
    have hbelow : below base (base ++ "/" ++ keyOf name) = keyOf name := by
      rw [below_of_splitPath hparts, Text.join_split]
    have hne : keyOf name ≠ "" := by
      intro hempty
      rw [hempty] at hpieces
      exact hpieces "" List.mem_cons_self rfl
    have hanswers := h.answers hasked
    rw [hpath, hbelow, if_neg hne] at hanswers
    exact hanswers.of_some (hentries ▸ get?_ofList_of_last hlater)
  · intro q rest hmethod hrest hpath hkeys hpreferred
    have hanswers := h.answers (h.asked hbase hmethod hpath hpreferred)
    have hne : Text.join "/" rest ≠ "" := by
      intro hempty
      have hmem : ∀ part ∈ rest, part ≠ "" ∧ '/' ∉ part.toList := fun part hpart =>
        mem_splitPath (hpath ▸ List.mem_append_right _ hpart)
      have hsplit := splitPath_join hmem
      rw [hempty] at hsplit
      exact hrest hsplit.symm
    rw [below_of_splitPath hpath, if_neg hne] at hanswers
    exact hanswers.of_none (get?_ofList_eq_none hkeys)

theorem literal_ui : Literal "/ui" := by
  have hparts : splitPath "/ui" = ["ui"] := by decide
  exact literal_of_single hparts ⟨by decide, by decide⟩

/-- The page is served under its own name, and the name of its directory is no key. -/
theorem reaches_guide :
    (∃ r, (site "/ui" guide).dispatch (.new .get "/ui/docs/index.html") = .ok r ∧ r.status = .ok ∧
      r.body = Bytes.ofText "page") ∧
    ∃ r, (site "/ui" guide).dispatch (.new .get "/ui/docs") = .ok r ∧ r.status = .notFound := by
  have hall := serving_guide.reaches literal_ui (by decide)
  constructor
  · exact hall.1 [] "docs/index.html" _ [] rfl (by simp) (by decide) (by decide) (preferred_guide _)
  · exact hall.2 (.new .get "/ui/docs") ["docs"] rfl (List.cons_ne_nil _ _) (by decide)
      (by simp [guide, keyOf, Text.trimStart, Text.join]) (preferred_guide _)

def marked : List (String × Bytes) := [("x", Bytes.ofText "1")]

theorem routes_marked : (site "/a?b" marked).table.routes =
    [⟨.get, ⟨"/a?b/*path", [.literal "a?b", .wildcard "path"]⟩, (ofList marked).handler⟩] := rfl

/-- A base with a question mark is accepted, but what follows the mark is the query of a request: nothing is ever asked for
below such a base. -/
theorem missed_below_question_mark :
    Serving "/a?b" marked (site "/a?b" marked) ∧ Literal "/a?b" ∧
      (∀ path, Preferred (site "/a?b" marked).table "/a?b" path) ∧
        (site "/a?b" marked).dispatch (.new .get ("/a?b" ++ "/" ++ keyOf "x")) = .error (.notFound "/a") := by
  have hparts : splitPath "/a?b" = ["a?b"] := by decide
  have hp : Pattern.parse (pattern "/a?b") = .ok ⟨"/a?b/*path", [.literal "a?b", .wildcard "path"]⟩ := rfl
  refine ⟨serving_site rfl, literal_of_single hparts ⟨by decide, by decide⟩, preferred_of_single routes_marked hp, ?_⟩
  · refine Dispatcher.dispatch_eq_notFound_iff.2 ⟨rfl, fun m => ?_⟩
    rintro ⟨r, hr, -, hmatch⟩
    rw [routes_marked, List.mem_singleton] at hr
    subst hr
    cases hmatch

end Assets

end Hypertext

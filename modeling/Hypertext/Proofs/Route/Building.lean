/-
Building: what calls make of a router, those that failed included. A failed call leaves behind at most a page that
nobody writes on. The documents that a sealed router has promised are written when it is sealed and never change.
-/
import Hypertext.Proofs.Route.Branches

namespace Hypertext

namespace Builder

/-! ## What calls change -/

variable {b b' : Builder} {method : Method} {new : Route Destination}

@[simp]
theorem openBranch_pending (method : Method) (b : Builder) : (b.openBranch method).pending = b.pending := by
  unfold openBranch
  split <;> rfl

@[simp]
theorem openBranch_pages (method : Method) (b : Builder) : (b.openBranch method).pages = b.pages := by
  unfold openBranch
  split <;> rfl

@[simp]
theorem openBranch_isSealed (method : Method) (b : Builder) : (b.openBranch method).isSealed = b.isSealed := by
  unfold openBranch
  split <;> rfl

/-- A builder with one more page. -/
def withPage (b : Builder) : Builder := { b with pages := b.pages ++ [none] }

/-- A builder with one more document. -/
def withPending (d : PendingDocument) (b : Builder) : Builder := { b with pending := b.pending ++ [d] }

/-- A builder that has become a listing. -/
def emptied (b : Builder) : Builder :=
  { branches := [], pending := [], pages := b.pending.foldl (publish b.routes) b.pages, isSealed := true }

/-- The route that a call registers, if it is the call for a handler: a method, the text of a pattern and the handler. -/
def Call.hosted? : Call → Option (Method × String × Handler)
  | .register method pattern h => some (method, pattern, h)
  | .serveAssets base entries => some (.get, FileRoute.pattern base, (Assets.ofList entries).handler)
  | .serveDirectory base d => some (.get, FileRoute.pattern base, d.handler)
  | .serveDocument _ _ _ => none
  | .sealing => none

/-- How a call can end. -/
inductive Change (b : Builder) : Call → Except RouteError (Option Listing) → Builder → Prop
  | hosted {c : Call} {method : Method} {text : String} {h : Handler} {result : Except RouteError Unit} {b' : Builder}
      (hc : c.hosted? = some (method, text, h)) (hr : Registered method text (.handler h) b result b') :
      Change b c (result.map fun _ => none) b'
  | promised {path title version : String} {b' : Builder}
      (hr : Registered .get path (.page b.pages.length) b.withPage (.ok ()) b') :
      Change b (.serveDocument path title version) (.ok none) (b'.withPending ⟨path, title, version, b.pages.length⟩)
  | unpromised {path title version : String} {e : RouteError} {b' : Builder}
      (hr : Registered .get path (.page b.pages.length) b.withPage (.error e) b') :
      Change b (.serveDocument path title version) (.error e) b'
  | emptied : Change b .sealing (.ok (some ⟨b.branches⟩)) b.emptied

theorem perform_of_hosted {c : Call} {method : Method} {text : String} {h : Handler}
    (hc : c.hosted? = some (method, text, h)) (b : Builder) :
    perform c b = ((runOn (register method text (.handler h)) b).1.map fun _ => none,
      (runOn (register method text (.handler h)) b).2) := by
  cases c with
  | serveDocument path title version => cases hc
  | sealing => cases hc
  | _ =>
    cases hc
    exact runOn_map _ _ b

theorem perform_serveDocument (path title version : String) (b : Builder) :
    perform (.serveDocument path title version) b =
      match runOn (register .get path (.page b.pages.length)) b.withPage with
      | (.ok _, b') => (.ok none, b'.withPending ⟨path, title, version, b.pages.length⟩)
      | (.error e, b') => (.error e, b') := by
  have hpage : runOn newPage b = (.ok b.pages.length, b.withPage) := rfl
  simp only [perform, Call.act, serveDocument, runOn_bind, hpage]
  cases runOn (register .get path (.page b.pages.length)) b.withPage with
  | mk result b' => cases result <;> rfl

theorem Laid.withPage (h : b.Laid) : b.withPage.Laid := ⟨h.methods, h.sound⟩

theorem Laid.change (h : b.Laid) {c : Call} {result : Except RouteError (Option Listing)}
    (hrun : perform c b = (result, b')) : Change b c result b' := by
  cases hc : c.hosted? with
  | some hosted =>
    obtain ⟨method, text, handler⟩ := hosted
    rw [perform_of_hosted hc] at hrun
    cases hrun
    exact .hosted hc (h.register rfl)
  | none =>
    cases c with
    | register method pattern handler => cases hc
    | serveAssets base entries => cases hc
    | serveDirectory base d => cases hc
    | sealing =>
      cases hrun
      exact .emptied
    | serveDocument path title version =>
      rw [perform_serveDocument] at hrun
      cases hregister : runOn (Builder.register .get path (.page b.pages.length)) b.withPage with
      | mk registered next =>
        rw [hregister] at hrun
        have hr := h.withPage.register hregister
        cases registered with
        | ok _ =>
          cases hrun
          exact .promised hr
        | error e =>
          cases hrun
          exact .unpromised hr

/-- A call that fails leaves a page behind at most. -/
theorem Change.of_error {c : Call} {e : RouteError} (h : Change b c (.error e) b') : b' = b ∨ b' = b.withPage := by
  generalize hresult : (Except.error e : Except RouteError (Option Listing)) = result at h
  cases h with
  | hosted hc hr =>
    rename_i result
    cases result with
    | ok _ => cases hresult
    | error e => exact .inl hr.eq_of_error
  | promised hr => cases hresult
  | unpromised hr => exact .inr hr.eq_of_error
  | emptied => cases hresult

/-! ## Pages -/

/-- What is on the first pages is on the others. -/
def Kept (pages pages' : List (Option Bytes)) : Prop :=
  ∀ (number : Nat) (content : Bytes), pages[number]? = some (some content) → pages'[number]? = some (some content)

theorem Kept.trans {pages pages' pages'' : List (Option Bytes)} (h : Kept pages pages') (h' : Kept pages' pages'') :
    Kept pages pages'' := fun number content hpage => h' number content (h number content hpage)

theorem kept_withPage (b : Builder) : Kept b.pages b.withPage.pages := by
  intro number content hpage
  rw [withPage, List.getElem?_append_left (List.getElem?_eq_some_iff.1 hpage).1]
  exact hpage

theorem writePage_of_ne {number other : Nat} (h : other ≠ number) (content : Bytes) (pages : List (Option Bytes)) :
    (writePage number content pages)[other]? = pages[other]? := by
  simp [writePage, Ne.symm h]

theorem kept_writePage (number : Nat) (content : Bytes) (pages : List (Option Bytes)) :
    Kept pages (writePage number content pages) := by
  intro other content' hpage
  simp [writePage, List.getElem?_modify, hpage]

theorem writePage_blank {number : Nat} {pages : List (Option Bytes)} (h : pages[number]? = some none) (content : Bytes) :
    (writePage number content pages)[number]? = some (some content) := by
  simp [writePage, h]

theorem kept_publish (routes : List (Route Destination)) :
    ∀ (documents : List PendingDocument) (pages : List (Option Bytes)),
      Kept pages (documents.foldl (publish routes) pages)
  | [], _ => fun _ _ hpage => hpage
  | _ :: documents, _ => (kept_writePage _ _ _).trans (kept_publish routes documents _)

/-- The text of a document. -/
def textOf (routes : List (Route Destination)) (d : PendingDocument) : Bytes :=
  Bytes.ofText (ApiDocument.describe d.title d.version d.path routes).text

/-- Each document is written on its page, if the pages are different and blank. -/
theorem publish_eq_text {routes : List (Route Destination)} {d : PendingDocument} :
    ∀ {documents : List PendingDocument} {pages : List (Option Bytes)}, (documents.map (·.page)).Nodup →
      (∀ d ∈ documents, pages[d.page]? = some none) → d ∈ documents →
        (documents.foldl (publish routes) pages)[d.page]? = some (some (textOf routes d))
  | first :: documents, pages, hnodup, hblank, hd => by
    rw [List.map_cons, List.nodup_cons] at hnodup
    rw [List.foldl_cons]
    rcases List.mem_cons.1 hd with rfl | hd
    · exact kept_publish _ _ _ _ _ (writePage_blank (hblank d List.mem_cons_self) _)
    · refine publish_eq_text hnodup.2 (fun other ho => ?_) hd
      have hne : other.page ≠ first.page := fun heq => hnodup.1 (heq ▸ List.mem_map_of_mem ho)
      rw [publish, writePage_of_ne hne]
      exact hblank other (List.mem_cons_of_mem _ ho)

theorem Registered.kept {text : String} {goal : Destination} {result : Except RouteError Unit}
    (h : Registered method text goal b result b') : Kept b.pages b'.pages := by
  intro number content hpage
  cases h with
  | accepted p _ _ _ => simpa [insert] using hpage
  | _ => exact hpage

theorem Registered.pending {text : String} {goal : Destination} {result : Except RouteError Unit}
    (h : Registered method text goal b result b') : b'.pending = b.pending := by
  cases h with
  | accepted p _ _ _ => simp [insert]
  | _ => rfl

/-- What has been written stays on its page. -/
theorem Change.kept {c : Call} {result : Except RouteError (Option Listing)} (h : Change b c result b') :
    Kept b.pages b'.pages := by
  cases h with
  | hosted _ hr => exact hr.kept
  | promised hr =>
    have hkept : Kept b.pages _ := (kept_withPage b).trans hr.kept
    exact hkept
  | unpromised hr => exact (kept_withPage b).trans hr.kept
  | emptied => exact kept_publish _ _ _

/-! ## What holds after any calls -/

/-- The branches are laid, and each route to a page has one document, which will be written on that page. -/
structure Sound (b : Builder) : Prop extends Laid b where
  promised : ∀ r ∈ b.routes, ∀ number, r.endpoint = .page number →
    ∃ d ∈ b.pending, d.page = number ∧ d.path = r.pattern.raw
  distinct : (b.pending.map (·.page)).Nodup
  blank : ∀ d ∈ b.pending, b.pages[d.page]? = some none
  emptied : b.isSealed = true → b.branches = [] ∧ b.pending = []

theorem sound_empty : empty.Sound := by
  constructor
  case toLaid => exact ⟨List.nodup_nil, by simp [empty]⟩
  case promised => simp [empty, routes]
  case distinct => exact List.nodup_nil
  case blank => simp [empty]
  case emptied => simp [empty]

/-- An accepted route is one that its text describes, in an open router in which it has no rival. -/
theorem Registered.of_ok {text : String} {goal : Destination} (h : Registered method text goal b (.ok ()) b') :
    ∃ p, b.isSealed = false ∧ Pattern.parse text = .ok p ∧ Pattern.parse p.raw = .ok p ∧ p.raw = text ∧
      (∀ r ∈ b.routesOf method, r.pattern.isAmbiguousWith p = false) ∧
      b' = (b.openBranch method).insert ⟨method, p, goal⟩ := by
  cases h with
  | accepted p hopen hp hr =>
    have hraw := (Pattern.parse_eq_ok_iff.1 hp).2.2
    refine ⟨p, hopen, hp, by rw [hraw]; exact hp, hraw, ?_, rfl⟩
    simpa [List.find?_eq_none] using hr

theorem Sound.withPage (h : b.Sound) : b.withPage.Sound where
  toLaid := h.toLaid.withPage
  promised := h.promised
  distinct := h.distinct
  blank d hd := by
    have hblank := h.blank d hd
    rw [Builder.withPage, List.getElem?_append_left (List.getElem?_eq_some_iff.1 hblank).1]
    exact hblank
  emptied := h.emptied

theorem Sound.hosted (h : b.Sound) {text : String} {handler : Handler} {result : Except RouteError Unit}
    (hr : Registered method text (.handler handler) b result b') : b'.Sound := by
  cases result with
  | error e =>
    rw [hr.eq_of_error]
    exact h
  | ok _ =>
    obtain ⟨p, hopen, -, hparse, -, hrival, rfl⟩ := hr.of_ok
    constructor
    case toLaid => exact h.toLaid.insert hparse hrival
    case promised =>
      intro r hmem number hnumber
      rcases List.mem_cons.1 ((h.toLaid.routes_insert _).mem_iff.1 hmem) with rfl | hmem
      · cases hnumber
      · simpa [insert] using h.promised r hmem number hnumber
    case distinct => simpa [insert] using h.distinct
    case blank => simpa [insert] using h.blank
    case emptied => simp [insert, hopen]

theorem Sound.promise (h : b.Sound) {path title version : String}
    (hr : Registered .get path (.page b.pages.length) b.withPage (.ok ()) b') :
    (b'.withPending ⟨path, title, version, b.pages.length⟩).Sound := by
  obtain ⟨p, hopen, -, hparse, hraw, hrival, rfl⟩ := hr.of_ok
  have hlt : ∀ d ∈ b.pending, d.page < b.pages.length := fun d hd => (List.getElem?_eq_some_iff.1 (h.blank d hd)).1
  constructor
  case toLaid =>
    have hlaid : ((b.withPage.openBranch .get).insert ⟨.get, p, .page b.pages.length⟩).Laid :=
      h.withPage.toLaid.insert hparse hrival
    exact ⟨hlaid.methods, hlaid.sound⟩
  case promised =>
    intro r hmem number hnumber
    rcases List.mem_cons.1 ((h.withPage.toLaid.routes_insert ⟨.get, p, .page b.pages.length⟩).mem_iff.1 hmem) with
      rfl | hmem
    · cases hnumber
      exact ⟨⟨path, title, version, b.pages.length⟩, by simp [withPending], rfl, hraw.symm⟩
    · obtain ⟨d, hd, hpage, hpath⟩ := h.promised r hmem number hnumber
      exact ⟨d, by simp [withPending, insert, Builder.withPage, hd], hpage, hpath⟩
  case distinct =>
    have hnew : b.pages.length ∉ b.pending.map (·.page) := by
      intro hmem
      obtain ⟨d, hd, hpage⟩ := List.mem_map.1 hmem
      exact absurd hpage (Nat.ne_of_lt (hlt d hd))
    simp only [withPending, insert, openBranch_pending, Builder.withPage, List.map_append, List.map_cons, List.map_nil]
    exact List.nodup_append.2 ⟨h.distinct, List.nodup_singleton _, by simpa [List.disjoint_singleton] using hnew⟩
  case blank =>
    intro d hd
    simp only [withPending, insert, openBranch_pending, openBranch_pages, Builder.withPage, List.mem_append,
      List.mem_singleton] at hd ⊢
    rcases hd with hd | rfl
    · rw [List.getElem?_append_left (hlt d hd)]
      exact h.blank d hd
    · simp
  case emptied =>
    have hopen' : b.isSealed = false := hopen
    simp [withPending, insert, Builder.withPage, hopen']

theorem sound_emptied (b : Builder) : b.emptied.Sound := by
  constructor
  case toLaid => exact ⟨List.nodup_nil, by simp [emptied]⟩
  case promised => simp [emptied, routes]
  case distinct => exact List.nodup_nil
  case blank => simp [emptied]
  case emptied => simp [emptied]

theorem Sound.change (h : b.Sound) {c : Call} {result : Except RouteError (Option Listing)} (hc : Change b c result b') :
    b'.Sound := by
  cases hc with
  | hosted _ hr => exact h.hosted hr
  | promised hr => exact h.promise hr
  | unpromised hr =>
    rw [hr.eq_of_error]
    exact h.withPage
  | emptied => exact sound_emptied b

/-- A router after calls. -/
def performAll (calls : List Call) (b : Builder) : Builder := calls.foldl (fun b c => (perform c b).2) b

theorem Sound.performAll (h : b.Sound) (calls : List Call) : (performAll calls b).Sound := by
  induction calls generalizing b with
  | nil => exact h
  | cons c calls ih => exact ih (h.change (h.toLaid.change rfl))

/-- What has been written stays on its page through all later calls. -/
theorem Sound.kept (h : b.Sound) (calls : List Call) : Kept b.pages (Builder.performAll calls b).pages := by
  induction calls generalizing b with
  | nil => exact fun _ _ hpage => hpage
  | cons c calls ih =>
    have hc := h.toLaid.change (c := c) rfl
    exact hc.kept.trans (ih (h.change hc))

end Builder

end Hypertext

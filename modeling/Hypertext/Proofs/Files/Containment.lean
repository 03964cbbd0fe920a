/-
Directory routes: which file is sent for a path. It is found from a place below the served directory, so it lies there
as well, unless the place is a directory whose index page is a link: the place is compared with the served directory
before the name of the index page is added, and the link is followed when the page is read.
-/
import Hypertext.Dispatch
import Hypertext.Proofs.Files.Walk
import Hypertext.Proofs.Route.FileRoute
import Hypertext.Proofs.Route.Registration

namespace Hypertext

open FileTree

namespace Directory

/-- The place whose file is sent for a place: a directory stands for its index page. -/
def page (t : FileTree) (place : List String) : List String :=
  match t.get? place with
  | some .directory => place ++ ["index.html"]
  | _ => place

/-- How the content of a file comes to be sent for a relative path: the path leads to a place at or below the root of
the directory, and the path of the page of that place leads to the file. -/
structure Sends (d : Directory) (relative : String) (root place file : List String) (content : Bytes) : Prop where
  resolved : d.tree.canonical d.path = .ok root
  asked : d.tree.canonical s!"{d.path}/{relative}" = .ok place
  within : root <+: place
  followed : d.tree.canonical (pathText (page d.tree place)) = .ok file
  stands : d.tree.get? file = some (.file content)

/-- The response with the content of a page. -/
def fileResponse (page : List String) (content : Bytes) : Response :=
  ((Response.new .ok).withHeader "Content-Type" (MediaType.ofPath (pathText page))).withBody content

/-- The response to a path that leads out of the directory. -/
def refusal : Response := .ofError .forbidden "path escapes served directory"

variable {d : Directory} {relative : String} {root place file : List String} {content : Bytes}

/-- A file that is sent is one below the root, or the target of a link that stands for an index page below it. -/
theorem Sends.contained (h : d.Sends relative root place file content) :
    root <+: file ∨ d.tree.get? place = some .directory ∧
      ∃ target, d.tree.get? (place ++ ["index.html"]) = some (.link target) := by
  have hreal := real_of_canonical h.asked
  have hfollowed := h.followed
  by_cases hdir : d.tree.get? place = some .directory
  · rw [page, hdir] at hfollowed
    by_cases hlink : ∃ target, d.tree.get? (place ++ ["index.html"]) = some (.link target)
    · exact .inr ⟨hdir, hlink⟩
    · have hfile := hreal.child_of_canonical hdir (by decide) (not_exists.1 hlink) hfollowed
      rw [hfile]
      exact .inl (h.within.trans (List.prefix_append _ _))
  · have hpage : page d.tree place = place := by
      unfold page
      split
      · next hdir' => exact absurd hdir' hdir
      · rfl
    rw [hpage] at hfollowed
    rw [(hreal.canonical_pathText_iff.1 hfollowed).2]
    exact .inl h.within

/-! ## Serving -/

/-- How serving a relative path can end: the file is sent, or the path leads out of the directory, or something on the
way to the file is not there. -/
inductive Outcome (d : Directory) (relative : String) : Except HandlerError Response → Prop
  | sent {root place file : List String} {content : Bytes} (h : d.Sends relative root place file content) :
      Outcome d relative (.ok (fileResponse (page d.tree place) content))
  | refused {root place : List String} (resolved : d.tree.canonical d.path = .ok root)
      (asked : d.tree.canonical s!"{d.path}/{relative}" = .ok place) (outside : ¬ root <+: place) :
      Outcome d relative (.error (.status .forbidden "path escapes served directory"))
  | failed (e : IoError) : Outcome d relative (.error (.failure e))

theorem status_failure (e : IoError) : (HandlerError.failure e).response.status ≠ .ok := by
  show (HandlerError.failure e).responseStatus ≠ .ok
  cases hkind : e.kind <;> simp [HandlerError.responseStatus, hkind]

/-- What is served once it is known where the root and the path lead. -/
theorem serve_of_canonical (hroot : d.tree.canonical d.path = .ok root)
    (hplace : d.tree.canonical s!"{d.path}/{relative}" = .ok place) :
    d.serve relative =
      if root <+: place then
        ((d.tree.read (pathText (page d.tree place))).map (fileResponse (page d.tree place))).mapError .failure
      else .error (.status .forbidden "path escapes served directory") := by
  unfold serve
  simp only [hroot, hplace, bind, Except.bind, Except.mapError]
  by_cases hwithin : root <+: place
  · rw [if_pos hwithin, List.isPrefixOf_iff_prefix.2 hwithin]
    unfold page
    cases d.tree.read _ <;> rfl
  · rw [if_neg hwithin, Bool.eq_false_iff.2 (mt List.isPrefixOf_iff_prefix.1 hwithin)]
    rfl

theorem serve_outcome (d : Directory) (relative : String) : d.Outcome relative (d.serve relative) := by
  cases hroot : d.tree.canonical d.path with
  | error e =>
    have hserve : d.serve relative = .error (.failure e) := by
      unfold serve
      simp only [hroot, bind, Except.bind, Except.mapError]
    rw [hserve]
    exact .failed e
  | ok root =>
    cases hplace : d.tree.canonical s!"{d.path}/{relative}" with
    | error e =>
      have hserve : d.serve relative = .error (.failure e) := by
        unfold serve
        simp only [hroot, hplace, bind, Except.bind, Except.mapError]
      rw [hserve]
      exact .failed e
    | ok place =>
      rw [serve_of_canonical hroot hplace]
      split_ifs with hwithin
      · cases hread : d.tree.read (pathText (page d.tree place)) with
        | error e => exact .failed e
        | ok content =>
          obtain ⟨file, hfile, hcontent⟩ := read_eq_ok_iff.1 hread
          exact .sent ⟨hroot, hplace, hwithin, hfile, hcontent⟩
      · exact .refused hroot hplace hwithin

theorem Sends.serve (h : d.Sends relative root place file content) :
    d.serve relative = .ok (fileResponse (page d.tree place) content) := by
  rw [serve_of_canonical h.resolved h.asked, if_pos h.within, read_eq_ok_iff.2 ⟨file, h.followed, h.stands⟩]
  rfl

/-! ## Requests -/

variable {D : Dispatcher} {base : String} {q : Request} {found : Found}

/-- A file route that serves a directory answers a request as the directory serves the path below, within any limit but
none at all. -/
theorem dispatch_eq (h : FileRoute.Runs D base d.handler q found) :
    D.dispatch q =
      if 0 < D.limit.millis then
        match d.serve (FileRoute.below base q.path) with
        | .ok r => .ok r
        | .error e => Dispatcher.conclude (.failed e)
      else .error (.handlerTimeout D.limit) := by
  have hbelow : ((⟨q, found.params⟩ : Context).param? FileRoute.pathName).getD "" = FileRoute.below base q.path := by
    rw [Context.param?, h.param, Option.getD_some]
  rw [← hbelow]
  exact h.dispatch

/-- A request under the base of a directory is answered with a file only if the file lies below the root of the
directory, unless it is reached by a link that stands for an index page there. Where a path leads out of the directory
the answer is the refusal. -/
theorem dispatch_contained (h : FileRoute.Runs D base d.handler q found) :
    (∀ r, D.dispatch q = .ok r → r.status = .ok → ∃ root place file,
      d.Sends (FileRoute.below base q.path) root place file r.body ∧ d.tree.Real root ∧ d.tree.Real file ∧
        (root <+: file ∨ d.tree.get? place = some .directory ∧
          ∃ target, d.tree.get? (place ++ ["index.html"]) = some (.link target))) ∧
    ∀ root place, d.tree.canonical d.path = .ok root →
      d.tree.canonical s!"{d.path}/{FileRoute.below base q.path}" = .ok place → ¬ root <+: place →
        0 < D.limit.millis → D.dispatch q = .ok refusal := by
  rw [dispatch_eq h]
  constructor
  · intro r hr hstatus
    split_ifs at hr with hlimit
    have houtcome := serve_outcome d (FileRoute.below base q.path)
    generalize d.serve (FileRoute.below base q.path) = outcome at hr houtcome
    cases houtcome with
    | sent hsends =>
      cases hr
      exact ⟨_, _, _, hsends, real_of_canonical hsends.resolved, real_of_canonical hsends.followed, hsends.contained⟩
    | refused =>
      cases hr
      cases hstatus
    | failed e =>
      cases hr
      exact absurd hstatus (status_failure e)
  · intro root place hroot hplace houtside hlimit
    rw [if_pos hlimit, serve_of_canonical hroot hplace, if_neg houtside]
    rfl

/-- A directory that holds a page and, for its index page, a link to a file outside. -/
def site : Directory :=
  ⟨⟨[(["site"], .directory), (["site", "page.txt"], .file [112]), (["site", "index.html"], .link "../secret.txt"),
    (["secret.txt"], .file [115])]⟩, "/site"⟩

/-- A dispatcher with one route, which serves the directory. -/
def siteDispatcher : Dispatcher := ⟨Router.tableOf [⟨.get, FileRoute.pattern "/s", site.handler⟩], .ofMillis 1000⟩

/-- What the route captures below its base. -/
def siteFound (relative : String) : Found :=
  ⟨⟨.get, ⟨"/s/*path", [.literal "s", .wildcard "path"]⟩, site.handler⟩, ⟨[("path", relative)]⟩⟩

theorem site_real : site.tree.Real ["site"] := .child .root rfl (by decide) rfl FileNode.plain_directory

theorem page_real : site.tree.Real ["site", "page.txt"] := .child site_real rfl (by decide) rfl (FileNode.plain_file _)

theorem walk_site {links : Nat} {rest : List String} :
    site.tree.walk links [] ("site" :: rest) = site.tree.walk links ["site"] rest :=
  walk_child rfl (by decide) rfl FileNode.plain_directory

theorem walk_secret {links : Nat} : site.tree.walk links [] ["secret.txt"] = .ok ["secret.txt"] := by
  have hfile : site.tree.get? ([] ++ ["secret.txt"]) = some (.file [115]) := rfl
  rw [walk_child rfl (by decide) hfile (FileNode.plain_file _), walk]
  rfl

theorem walk_out_of_site {links : Nat} : site.tree.walk links ["site"] ["..", "secret.txt"] = .ok ["secret.txt"] :=
  (walk_up rfl).trans walk_secret

theorem site_resolved : site.tree.canonical site.path = .ok ["site"] :=
  site_real.canonical_pathText_iff.2 ⟨by decide, rfl⟩

theorem page_sends : site.Sends "page.txt" ["site"] ["site", "page.txt"] ["site", "page.txt"] [112] where
  resolved := site_resolved
  asked := page_real.canonical_pathText_iff.2 ⟨by decide, rfl⟩
  within := ⟨["page.txt"], rfl⟩
  followed := page_real.canonical_pathText_iff.2 ⟨by decide, rfl⟩
  stands := rfl

theorem secret_asked : site.tree.canonical "/site/../secret.txt" = .ok ["secret.txt"] := by
  have hsteps : steps "/site/../secret.txt" = ["", "site", "..", "secret.txt"] := rfl
  refine canonical_eq_ok_iff.2 ⟨by decide, by decide, ?_⟩
  rw [hsteps, walk_same rfl (.inl rfl), walk_site, walk_out_of_site]

theorem site_asked : site.tree.canonical "/site/" = .ok ["site"] := by
  have hsteps : steps "/site/" = ["", "site", ""] := rfl
  refine canonical_eq_ok_iff.2 ⟨by decide, by decide, ?_⟩
  rw [hsteps, walk_same rfl (.inl rfl), walk_site, walk_same rfl (.inl rfl), walk]

theorem index_followed : site.tree.canonical (pathText (["site"] ++ ["index.html"])) = .ok ["secret.txt"] := by
  have hsteps : steps "../secret.txt" ++ [] = ["..", "secret.txt"] := rfl
  rw [canonical_eq_ok_iff, site_real.walk_pathText_child (by decide)]
  refine ⟨by decide, by decide, ?_⟩
  show site.tree.walk (39 + 1) ["site"] ["index.html"] = _
  rw [walk_link rfl (by decide) rfl (by decide), hsteps, walk_out_of_site]

/-- The index page of the directory is the file that stands outside. -/
theorem index_sends : site.Sends "" ["site"] ["site"] ["secret.txt"] [115] :=
  ⟨site_resolved, site_asked, List.prefix_rfl, index_followed, rfl⟩

/-- A page is served, and a path that leads out of the directory is refused. -/
theorem dispatch_page :
    siteDispatcher.dispatch (.new .get "/s/page.txt") = .ok (fileResponse ["site", "page.txt"] [112]) ∧
    (∃ root place file, site.Sends "page.txt" root place file [112] ∧ site.tree.Real root ∧ site.tree.Real file ∧
      (root <+: file ∨ site.tree.get? place = some .directory ∧
        ∃ target, site.tree.get? (place ++ ["index.html"]) = some (.link target))) ∧
    siteDispatcher.dispatch (.new .get "/s/../secret.txt") = .ok refusal := by
  have hpage : FileRoute.Runs siteDispatcher "/s" site.handler (.new .get "/s/page.txt") (siteFound "page.txt") :=
    ⟨rfl, rfl, rfl⟩
  have hsecret : FileRoute.Runs siteDispatcher "/s" site.handler (.new .get "/s/../secret.txt")
      (siteFound "../secret.txt") := ⟨rfl, rfl, rfl⟩
  have hsent : siteDispatcher.dispatch (.new .get "/s/page.txt") = .ok (fileResponse ["site", "page.txt"] [112]) := by
    have hserve : site.serve (FileRoute.below "/s" (Request.new .get "/s/page.txt").path) = _ := page_sends.serve
    rw [dispatch_eq hpage, hserve]
    rfl
  exact ⟨hsent, (dispatch_contained hpage).1 _ hsent rfl,
    (dispatch_contained hsecret).2 _ _ site_resolved secret_asked (by decide) (by decide)⟩

/-- Asked for the directory itself, the route sends the content of a file that is not below the root. -/
theorem dispatch_linked_index :
    FileRoute.Runs siteDispatcher "/s" site.handler (.new .get "/s") (siteFound "") ∧
    siteDispatcher.dispatch (.new .get "/s") = .ok (fileResponse ["site", "index.html"] [115]) ∧
    site.tree.canonical site.path = .ok ["site"] ∧
    ∀ file, site.tree.get? file = some (.file [115]) → ¬ ["site"] <+: file := by
  have hruns : FileRoute.Runs siteDispatcher "/s" site.handler (.new .get "/s") (siteFound "") := ⟨rfl, rfl, rfl⟩
  refine ⟨hruns, ?_, site_resolved, ?_⟩
  · have hserve : site.serve (FileRoute.below "/s" (Request.new .get "/s").path) = _ := index_sends.serve
    rw [dispatch_eq hruns, hserve]
    rfl
  · intro file hfile hbelow
    cases file with
    | nil => cases hfile
    | cons step below =>
      obtain ⟨node, hnode, hcontent⟩ := Option.map_eq_some_iff.1 hfile
      have hplace : node.1 = step :: below := by simpa using List.find?_some hnode
      have hmem := List.mem_of_find?_eq_some hnode
      -- of all nodes only the one outside has this content
      simp only [site, List.mem_cons, List.not_mem_nil, or_false] at hmem
      rcases hmem with rfl | rfl | rfl | rfl
      · cases hcontent
      · cases hcontent
      · cases hcontent
      · cases hplace
        exact absurd hbelow (by decide)

end Directory

end Hypertext

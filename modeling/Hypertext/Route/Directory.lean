/-
The files of a directory, served under a common start of their paths. Nothing outside the directory is served.
-/
import Hypertext.FileTree
import Hypertext.Route.Assets

namespace Hypertext

structure Directory where
  tree : FileTree
  path : String

namespace Directory

def pathText (place : List String) : String := "/" ++ Text.join "/" place

/-- The response with the file at a relative path; a directory stands for its index page. -/
def serve (d : Directory) (relative : String) : Except HandlerError Response := do
  let lift {α : Type} (r : Except IoError α) : Except HandlerError α := r.mapError .failure
  let base ← lift (d.tree.canonical d.path)
  let place ← lift (d.tree.canonical s!"{d.path}/{relative}")
  if !base.isPrefixOf place then throw (.status .forbidden "path escapes served directory")
  let target := match d.tree.get? place with
    | some .directory => place ++ ["index.html"]
    | _ => place
  let content ← lift (d.tree.read (pathText target))
  return ((Response.new .ok).withHeader "Content-Type" (MediaType.ofPath (pathText target))).withBody content

def handler (d : Directory) : Handler := .immediate fun c => d.serve ((c.param? FileRoute.pathName).getD "")

end Directory

def Router.serveDirectory (base : String) (d : Directory) (r : Router) : Except RouteError Router :=
  r.register .get (FileRoute.pattern base) (.handler d.handler)

end Hypertext

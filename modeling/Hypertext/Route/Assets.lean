/-
Assets held in memory, served under a common start of their paths.
-/
import Hypertext.Route.MediaType
import Hypertext.Route.Router

namespace Hypertext

namespace FileRoute

/-- The name under which file routes capture the path of the file. -/
def pathName : String := "path"

/-- The pattern of all paths at and below another. -/
def pattern (base : String) : String := Text.trimEnd '/' base ++ "/*" ++ pathName

end FileRoute

/-- Named byte strings. -/
structure Assets where
  entries : List (String × Bytes)

namespace Assets

/-- Assets by their keys; slashes at the start of a key do not count. -/
def ofList (entries : List (String × Bytes)) : Assets := ⟨entries.map fun e => (Text.trimStart '/' e.1, e.2)⟩

def get? (key : String) (a : Assets) : Option Bytes := (a.entries.reverse.find? (·.1 == key)).map (·.2)

/-- The key for a relative path: a directory stands for its index page. -/
def key (relative : String) : String :=
  if relative == "" || relative.toList.getLast? == some '/' then relative ++ "index.html" else relative

def serve (a : Assets) (relative : String) : Except HandlerError Response :=
  match a.get? (key relative) with
  | none => .error (.missing s!"no asset at {Text.quote relative}")
  | some data => .ok (((Response.new .ok).withHeader "Content-Type" (MediaType.ofPath (key relative))).withBody data)

def handler (a : Assets) : Handler := .immediate fun c => a.serve ((c.param? FileRoute.pathName).getD "")

end Assets

def Router.serveAssets (base : String) (entries : List (String × Bytes)) (r : Router) : Except RouteError Router :=
  r.register .get (FileRoute.pattern base) (.handler (Assets.ofList entries).handler)

end Hypertext

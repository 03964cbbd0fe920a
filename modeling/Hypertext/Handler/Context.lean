/-
What a handler is given.
-/
import Hypertext.Json.Parse
import Hypertext.Message.Request
import Hypertext.Route.Params

namespace Hypertext

/-- A request with what its path captured. -/
structure Context where
  request : Request
  params : PathParams

namespace Context

def param? (name : String) (c : Context) : Option String := c.params.get? name

def query? (key : String) (c : Context) : Option String := c.request.queryParam? key

def body (c : Context) : Bytes := c.request.body

def json (c : Context) : Except Json.Error Json := Json.parse c.body

end Context

end Hypertext

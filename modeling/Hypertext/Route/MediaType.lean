/-
The content type of a file, found by the extension of its name.
-/
import Hypertext.Text.Ascii
import Hypertext.Text.Split

namespace Hypertext.MediaType

/-- The last part of a path, if it names something. -/
def fileName? (path : String) : Option String :=
  let parts := (Text.split '/' path).filter fun p => p != "" && p != "."
  parts.getLast?.filter (· != "..")

/-- What follows the last point of a name; a point at the start does not count. -/
def extension? (name : String) : Option String :=
  match Text.cutList? '.' name.toList.reverse with
  | some (ext, _ :: _) => some (String.ofList ext.reverse)
  | _ => none

/-- The type of files with a given extension in small letters. -/
def ofExtension : String → String
  | "html" | "htm" => "text/html; charset=utf-8"
  | "css" => "text/css; charset=utf-8"
  | "js" | "mjs" => "text/javascript; charset=utf-8"
  | "json" => "application/json"
  | "txt" => "text/plain; charset=utf-8"
  | "svg" => "image/svg+xml"
  | "png" => "image/png"
  | "jpg" | "jpeg" => "image/jpeg"
  | "gif" => "image/gif"
  | "ico" => "image/x-icon"
  | "wasm" => "application/wasm"
  | _ => "application/octet-stream"

def ofPath (path : String) : String := ofExtension (((fileName? path).bind extension?).map Text.lower |>.getD "")

end Hypertext.MediaType

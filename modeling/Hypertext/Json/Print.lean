/-
The compact text of a JSON value: no blanks, the members of an object in the order of their names.
-/
import Hypertext.Json.Fault

namespace Hypertext.Json

/-- Doubles are written with a decimal place, and with an exponent below `10^-5` and from `10^16`. -/
def doubleLayout : Decimal.Layout := ⟨-4, 16, true, "+"⟩

/-- How one character stands in a string. -/
def escapeChar (c : Char) : List Char :=
  match c with
  | '"' => ['\\', '"']
  | '\\' => ['\\', '\\']
  | '\n' => ['\\', 'n']
  | '\r' => ['\\', 'r']
  | '\t' => ['\\', 't']
  | '\x08' => ['\\', 'b']
  | '\x0c' => ['\\', 'f']
  | _ => if c.toNat < 32 then ['\\', 'u', '0', '0', Bytes.hexDigit (c.toNat / 16), Bytes.hexDigit (c.toNat % 16)]
    else [c]

def quote (s : String) : String := String.ofList ('"' :: s.toList.flatMap escapeChar ++ ['"'])

def numberText : JsonNumber → String
  | .nonneg n => toString n
  | .negative n => "-" ++ toString n
  | .double x => doubleLayout.text x

mutual

def text : Json → String
  | .null => "null"
  | .bool b => if b then "true" else "false"
  | .number n => numberText n
  | .string s => quote s
  | .array items => "[" ++ ",".intercalate (itemTexts items) ++ "]"
  | .object members => "\x7b" ++ ",".intercalate (memberTexts members) ++ "\x7d"

def itemTexts : List Json → List String
  | [] => []
  | v :: rest => text v :: itemTexts rest

def memberTexts : List (String × Json) → List String
  | [] => []
  | (k, v) :: rest => (quote k ++ ":" ++ text v) :: memberTexts rest

end

end Hypertext.Json

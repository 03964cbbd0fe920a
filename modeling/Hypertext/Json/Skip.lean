/-
Passing over a JSON value that nobody wants. Its text is checked only as far as its end has to be found: nesting
has no limit and escapes need not denote characters.
-/
import Hypertext.Json.Parse

namespace Hypertext.Json

def skipString : (steps : Nat) → Bytes → Except Fault Bytes
  | 0, s => fail .endInString s
  | _ + 1, [] => fail .endInString []
  | k + 1, b :: rest =>
    if b == 34 then .ok rest
    else if b == 92 then
      match rest with
      | [] => fail .endInString []
      | 117 :: rest => do
        let (_, rest) ← hexEscape rest
        skipString k rest
      | e :: rest =>
        if [34, 92, 47, 98, 102, 110, 114, 116].contains e then skipString k rest else fail .badEscape rest
    else if b < 32 then fail .controlCharacter (b :: rest)
    else skipString k rest

/-- Passes an exponent after its letter. -/
def skipExponent (s : Bytes) : Except Fault Bytes :=
  let s := match s with
    | b :: rest => if b == 43 || b == 45 then rest else s
    | [] => s
  match s with
  | [] => fail .badNumber []
  | d :: rest => if Bytes.isDigit d then .ok (rest.dropWhile Bytes.isDigit) else fail .badNumber rest

/-- Passes a number without its sign. -/
def skipNumber (s : Bytes) : Except Fault Bytes :=
  let (digits, rest) := spanDigits s
  match digits with
  | [] => fail .badNumber (rest.drop 1)
  | 48 :: _ :: _ => failAtNext .badNumber (s.drop 1)
  | _ =>
    match rest with
    | 46 :: after =>
      let (places, rest) := spanDigits after
      if places.isEmpty then failAtNext .badNumber rest
      else match rest with
        | b :: after => if b == 101 || b == 69 then skipExponent after else .ok rest
        | [] => .ok []
    | b :: after => if b == 101 || b == 69 then skipExponent after else .ok rest
    | [] => .ok []

/-- Passes a name and the colon after it, if an object is open. -/
def skipName (inObject : Bool) (s : Bytes) : Except Fault Bytes :=
  if inObject then
    match skipSpace s with
    | [] => failAtNext .endInObject []
    | 34 :: rest => do
      let rest ← skipString (rest.length + 1) rest
      match skipSpace rest with
      | [] => failAtNext .endInObject []
      | 58 :: rest => .ok rest
      | rest => failAtNext .noColon rest
    | rest => failAtNext .keyNotString rest
  else .ok s

/-- After a value, or after an opening bracket when no comma may come: closes brackets, innermost first, until a
further value has to follow. The flags say for each open bracket whether it is a brace. -/
def skipClosers : (steps : Nat) → (comma : Bool) → List Bool → Bytes → Except Fault (List Bool × Bytes)
  | 0, _, open_, s => .ok (open_, s)
  | _ + 1, _, [], s => .ok ([], s)
  | k + 1, comma, inObject :: outer, s =>
    match skipSpace s with
    | [] => failAtNext (if inObject then .endInObject else .endInList) []
    | b :: rest =>
      if b == 44 && comma then do
        let rest ← skipName inObject rest
        return (inObject :: outer, rest)
      else if b == (if inObject then 125 else 93) then skipClosers k true outer rest
      else if comma then failAtNext (if inObject then .noObjectCommaOrEnd else .noListCommaOrEnd) (b :: rest)
      else do
        let rest ← skipName inObject (b :: rest)
        return (inObject :: outer, rest)

/-- Passes one value inside the open brackets, then all that closes them. -/
def skipNested : (steps : Nat) → List Bool → Bytes → Except Fault Bytes
  | 0, _, s => .ok s
  | k + 1, open_, s => do
    let closers (comma : Bool) (open_ : List Bool) (s : Bytes) : Except Fault Bytes := do
      match ← skipClosers (s.length + 1) comma open_ s with
      | ([], s) => return s
      | (open_, s) => skipNested k open_ s
    match skipSpace s with
    | [] => failAtNext .endInValue []
    | b :: rest =>
      if b == 110 then closers true open_ (← word (asciiWord "ull") rest)
      else if b == 116 then closers true open_ (← word (asciiWord "rue") rest)
      else if b == 102 then closers true open_ (← word (asciiWord "alse") rest)
      else if b == 45 then closers true open_ (← skipNumber rest)
      else if Bytes.isDigit b then closers true open_ (← skipNumber (b :: rest))
      else if b == 34 then closers true open_ (← skipString (rest.length + 1) rest)
      else if b == 91 then closers false (false :: open_) rest
      else if b == 123 then closers false (true :: open_) rest
      else failAtNext .noValue (b :: rest)

def skipValue (s : Bytes) : Except Fault Bytes := skipNested (s.length + 1) [] s

end Hypertext.Json

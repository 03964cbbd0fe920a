/-
Reading JSON text as a value. Lists and objects may be nested 127 deep.
-/
import Hypertext.Json.Reader

namespace Hypertext.Json

/-- The items of a list after its opening bracket, and the bytes after the closing one. Each step takes at least
one byte, so the length of the text bounds the steps. -/
def readItems (item : Bytes → Read Json) : (steps : Nat) → (first : Bool) → (acc : List Json) → Bytes →
    Except Fault (List Json × Bytes)
  | 0, _, _, s => fail .endInList s
  | k + 1, first, acc, s =>
    match skipSpace s with
    | [] => failAtNext .endInList []
    | 93 :: rest => .ok (acc.reverse, rest)
    | b :: rest =>
      if first then do
        let (v, rest) ← item (b :: rest)
        readItems item k false (v :: acc) rest
      else if b == 44 then
        match skipSpace rest with
        | [] => failAtNext .endInValue []
        | 93 :: rest => failAtNext .trailingComma (93 :: rest)
        | rest => do
          let (v, rest) ← item rest
          readItems item k false (v :: acc) rest
      else failAtNext .noListCommaOrEnd (b :: rest)

def readColon (s : Bytes) : Except Fault Bytes :=
  match skipSpace s with
  | [] => failAtNext .endInObject []
  | 58 :: rest => .ok rest
  | rest => failAtNext .noColon rest

/-- Before the next name of an object: its opening quote is taken, or the closing brace is seen. -/
def nextName (first : Bool) (s : Bytes) : Except Fault (Option Bytes) :=
  match skipSpace s with
  | [] => failAtNext .endInObject []
  | 125 :: _ => .ok none
  | b :: rest =>
    if first then if b == 34 then .ok (some rest) else failAtNext .keyNotString (b :: rest)
    else if b == 44 then
      match skipSpace rest with
      | [] => failAtNext .endInValue []
      | 34 :: rest => .ok (some rest)
      | 125 :: rest => failAtNext .trailingComma (125 :: rest)
      | rest => failAtNext .keyNotString rest
    else failAtNext .noObjectCommaOrEnd (b :: rest)

/-- The members of an object after its opening brace. -/
def readMembers (item : Bytes → Read Json) : (steps : Nat) → (first : Bool) → (acc : List (String × Json)) →
    Bytes → Except Fault (List (String × Json) × Bytes)
  | 0, _, _, s => fail .endInObject s
  | k + 1, first, acc, s => do
    match ← nextName first s with
    | none => .ok (acc.reverse, (skipSpace s).drop 1)
    | some rest =>
      let (key, rest) ← readString rest
      let rest ← readColon rest
      let (v, rest) ← item rest
      readMembers item k false ((key, v) :: acc) rest

/-- A value with at most `depth` brackets open at once, less one. -/
def readValue : (depth : Nat) → Bytes → Except Fault (Json × Bytes)
  | depth, s =>
    match skipSpace s with
    | [] => failAtNext .endInValue []
    | b :: rest =>
      if b == 110 then (word (asciiWord "ull") rest).map fun r => (.null, r)
      else if b == 116 then (word (asciiWord "rue") rest).map fun r => (.bool true, r)
      else if b == 102 then (word (asciiWord "alse") rest).map fun r => (.bool false, r)
      else if b == 45 then (readNumber false rest).map fun p => (.number p.1, p.2)
      else if Bytes.isDigit b then (readNumber true (b :: rest)).map fun p => (.number p.1, p.2)
      else if b == 34 then (readString rest).map fun p => (.string p.1, p.2)
      else if b == 91 || b == 123 then
        match depth with
        | 0 => failAtNext .tooDeep (b :: rest)
        | d + 1 =>
          if b == 91 then
            (readItems (readValue d) (rest.length + 1) true [] rest).map fun p => (.array p.1, p.2)
          else (readMembers (readValue d) (rest.length + 1) true [] rest).map fun p => (.ofMembers p.1, p.2)
      else failAtNext .noValue (b :: rest)

def maxDepth : Nat := 127

/-- Only blanks may follow the value of a text. -/
def atEnd (s : Bytes) : Except Fault Unit :=
  match skipSpace s with
  | [] => .ok ()
  | rest => failAtNext .trailingCharacters rest

/-- Runs a reader on a whole text and places its fault. -/
def whole {α : Type} (read : Bytes → Read α) (text : Bytes) : Except Error α :=
  let outcome : Except Fault α := do
    let (v, rest) ← read text
    atEnd rest
    return v
  outcome.mapError (Fault.locate text)

def parse (text : Bytes) : Except Error Json := whole (readValue maxDepth) text

end Hypertext.Json

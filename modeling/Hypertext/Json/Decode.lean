/-
Reading JSON text as a value of a wanted shape. A record is written as an object, or as a list of its fields in
order; what does not fit is reported with the place up to which the text had been read.
-/
import Hypertext.Json.Skip

namespace Hypertext.Json

/-! ## Plain values -/

/-- The text holds a value, but not of the wanted kind: names the kind it has. -/
def wrongType {α : Type} (wanted : String) (s : Bytes) : Read α :=
  let no (found : Found) (rest : Bytes) : Read α := fail (.wrongType found wanted) rest
  match skipSpace s with
  | [] => failAtNext .endInValue []
  | b :: rest =>
    if b == 110 then (word (asciiWord "ull") rest).bind (no .null)
    else if b == 116 then (word (asciiWord "rue") rest).bind (no (.bool true))
    else if b == 102 then (word (asciiWord "alse") rest).bind (no (.bool false))
    else if b == 45 then (readNumber false rest).bind fun p => no (.number p.1) p.2
    else if Bytes.isDigit b then (readNumber true (b :: rest)).bind fun p => no (.number p.1) p.2
    else if b == 34 then (readString rest).bind fun p => no (.string p.1) p.2
    else if b == 91 then no .sequence (b :: rest)
    else if b == 123 then no .map (b :: rest)
    else failAtNext .noValue (b :: rest)

/-- A whole number from 0 to `max`; `wanted` names its type. -/
def readUnsigned (max : Nat) (wanted : String) (s : Bytes) : Read Nat :=
  let check (p : JsonNumber × Bytes) : Read Nat :=
    match p.1 with
    | .nonneg n => if n ≤ max then .ok (n, p.2) else fail (.wrongValue (.number p.1) wanted) p.2
    | .negative _ => fail (.wrongValue (.number p.1) wanted) p.2
    | .double _ => fail (.wrongType (.number p.1) wanted) p.2
  match skipSpace s with
  | 45 :: rest => (readNumber false rest).bind check
  | b :: rest =>
    if Bytes.isDigit b then (readNumber true (b :: rest)).bind check else wrongType wanted (b :: rest)
  | [] => wrongType wanted []

def readBool (s : Bytes) : Read Bool :=
  match skipSpace s with
  | 116 :: rest => (word (asciiWord "rue") rest).map fun r => (true, r)
  | 102 :: rest => (word (asciiWord "alse") rest).map fun r => (false, r)
  | rest => wrongType "a boolean" rest

/-- A string; `wanted` says for what it stands. -/
def readText (wanted : String) (s : Bytes) : Read String :=
  match skipSpace s with
  | 34 :: rest => readString rest
  | rest => wrongType wanted rest

/-- A string that is read further; a refusal is a complaint in the reader's words. -/
def readParsed {α : Type} (wanted refusal : String) (parse? : String → Option α) (s : Bytes) : Read α :=
  (readText wanted s).bind fun p =>
    match parse? p.1 with
    | some a => .ok (a, p.2)
    | none => fail (.other refusal) p.2

/-! ## Records -/

/-- A field of a record: its name and how its value is read into the record. -/
structure Field (σ : Type) where
  name : String
  read : Bytes → Read (σ → σ)

/-- A field whose value is read by `read` and stored by `store`. -/
def field {σ α : Type} (name : String) (read : Bytes → Read α) (store : α → σ → σ) : Field σ :=
  ⟨name, fun s => (read s).map fun p => (store p.1, p.2)⟩

/-- How a record is written. With `defaults` a field may be left out; if `closed`, no other names may occur. -/
structure Shape (σ : Type) where
  name : String
  fields : List (Field σ)
  defaults : Bool
  closed : Bool

/-- Where an object would end: past its closing brace, if it comes next. -/
def pastBrace (s : Bytes) : Bytes :=
  match skipSpace s with
  | 125 :: rest => rest
  | rest => rest

/-- The members of an object after its opening brace; `seen` holds the names read so far. -/
def readFields {σ : Type} (shape : Shape σ) : (steps : Nat) → (seen : List String) → σ → Bytes →
    Except Fault (σ × Bytes)
  | 0, _, _, s => fail .endInObject s
  | k + 1, seen, record, s => do
    match ← nextName seen.isEmpty s with
    | none =>
      match shape.fields.find? fun f => !shape.defaults && !seen.contains f.name with
      | some f => fail (.missingField f.name) (pastBrace s)
      | none => .ok (record, pastBrace s)
    | some rest =>
      let (name, rest) ← readString rest
      match shape.fields.find? (·.name == name) with
      | some f =>
        if seen.contains name then fail (.duplicateField name) (pastBrace rest)
        else
          let rest ← readColon rest
          let (store, rest) ← f.read rest
          readFields shape k (name :: seen) (store record) rest
      | none =>
        if shape.closed then fail (.unknownField name (shape.fields.map (·.name))) rest
        else
          let rest ← readColon rest
          let rest ← skipValue rest
          readFields shape k (name :: seen) record rest

/-- The end of a list whose fields have all been read. -/
def closeList (s : Bytes) : Except Fault Bytes :=
  match skipSpace s with
  | [] => failAtNext .endInList []
  | 93 :: rest => .ok rest
  | 44 :: rest =>
    match skipSpace rest with
    | 93 :: rest => failAtNext .trailingComma (93 :: rest)
    | rest => failAtNext .trailingCharacters rest
  | rest => failAtNext .trailingCharacters rest

/-- The fields of a record written as a list, after its opening bracket; `n` have been read. -/
def readPositional {σ : Type} (shape : Shape σ) : List (Field σ) → (n : Nat) → σ → Bytes →
    Except Fault (σ × Bytes)
  | [], _, record, s => do return (record, ← closeList s)
  | f :: fields, n, record, s =>
    match skipSpace s with
    | [] => failAtNext .endInList []
    | 93 :: rest =>
      if shape.defaults then .ok (record, rest)
      else
        let wanted := s!"struct {shape.name} with {shape.fields.length} elements"
        fail (.wrongLength n wanted) rest
    | b :: rest =>
      if n == 0 then do
        let (store, rest) ← f.read (b :: rest)
        readPositional shape fields (n + 1) (store record) rest
      else if b == 44 then
        match skipSpace rest with
        | [] => failAtNext .endInValue []
        | 93 :: rest => failAtNext .trailingComma (93 :: rest)
        | rest => do
          let (store, rest) ← f.read rest
          readPositional shape fields (n + 1) (store record) rest
      else failAtNext .noListCommaOrEnd (b :: rest)

/-- A record of the given shape, its fields stored one after another into `start`. -/
def readRecord {σ : Type} (shape : Shape σ) (start : σ) (s : Bytes) : Read σ :=
  match skipSpace s with
  | 91 :: rest => readPositional shape shape.fields 0 start rest
  | 123 :: rest => readFields shape (rest.length + 1) [] start rest
  | rest => wrongType s!"struct {shape.name}" rest

end Hypertext.Json

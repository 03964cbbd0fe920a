/-
A tree of files, directories and symbolic links, and how paths lead through it.
-/
import Hypertext.Bytes
import Hypertext.IoError
import Hypertext.Text.Split

namespace Hypertext

/-- What stands at a place of a tree. -/
inductive FileNode
  | directory
  | file (content : Bytes)
  | link (target : String)

/-- The places below the root, each given by the names that lead to it. -/
structure FileTree where
  nodes : List (List String × FileNode)

namespace FileTree

/-- The ways in which a path can lead nowhere. -/
def missing : IoError := ⟨.notFound, "No such file or directory (os error 2)"⟩

def notDirectory : IoError := ⟨.other, "Not a directory (os error 20)"⟩

def isDirectory : IoError := ⟨.other, "Is a directory (os error 21)"⟩

def nameTooLong : IoError := ⟨.other, "File name too long (os error 36)"⟩

def tooManyLinks : IoError := ⟨.other, "Too many levels of symbolic links (os error 40)"⟩

def zeroByte : IoError := ⟨.invalidInput, "file name contained an unexpected NUL byte"⟩

def maxNameLength : Nat := 255

def maxLinks : Nat := 40

/-- What stands at a place; the root is a directory. -/
def get? (t : FileTree) : List String → Option FileNode
  | [] => some .directory
  | place => (t.nodes.find? (·.1 == place)).map (·.2)

def steps (path : String) : List String := Text.split '/' path

/-- Follows steps from a place that is reached without links; an empty step stands for the place itself. A link is
replaced by the steps of its target. -/
def walk (t : FileTree) : (links : Nat) → (place : List String) → List String → Except IoError (List String)
  | _, place, [] => .ok place
  | links, place, step :: rest =>
    match t.get? place with
    | some .directory =>
      if step == "" || step == "." then walk t links place rest
      else if step == ".." then walk t links place.dropLast rest
      else if maxNameLength < step.utf8ByteSize then .error nameTooLong
      else match t.get? (place ++ [step]), links with
        | none, _ => .error missing
        | some (.link _), 0 => .error tooManyLinks
        | some (.link target), links + 1 =>
          let start := if target.toList.head? == some '/' then [] else place
          walk t links start (steps target ++ rest)
        | some _, links => walk t links (place ++ [step]) rest
    | _ => .error notDirectory
termination_by links _ todo => (links, todo.length)

/-- The place to which a path from the root leads, free of links. The empty path leads nowhere. -/
def canonical (t : FileTree) (path : String) : Except IoError (List String) :=
  if path.toList.contains '\x00' then .error zeroByte
  else if path == "" then .error missing
  else t.walk maxLinks [] (steps path)

def read (t : FileTree) (path : String) : Except IoError Bytes := do
  match t.get? (← t.canonical path) with
  | some (.file content) => return content
  | some .directory => throw isDirectory
  | _ => throw missing

end FileTree

end Hypertext

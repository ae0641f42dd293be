import Relink.FileTree

/-! # Reaching files

A path is followed part by part from a folder. A link stands for its target, which is followed from
the folder that holds the link; at most forty links are followed on one way, those that the path ends in
included. Writing to a path makes the file where the path leads, also through links whose target is
missing. The system may still refuse to write there; then nothing is written. -/

namespace Relink

/-- Why a path cannot be used. -/
inductive FileError where
  /-- There is no such entry. -/
  | notFound
  /-- The way leads through something that is no folder. -/
  | notFolder
  /-- A folder stands where a file is wanted. -/
  | isFolder
  /-- A name has more than 255 bytes, or the path more than 4095. -/
  | nameTooLong
  /-- More than forty links had to be followed. -/
  | linkLoop
  /-- A zero byte stands in the path. -/
  | zeroByte
  /-- The file may not be read or written. -/
  | refused (reason : Text)
  deriving DecidableEq, Repr

namespace FileError

/-- The system's words for an error. -/
def message : FileError → Text
  | notFound => "No such file or directory (os error 2)".toList
  | notFolder => "Not a directory (os error 20)".toList
  | isFolder => "Is a directory (os error 21)".toList
  | nameTooLong => "File name too long (os error 36)".toList
  | linkLoop => "Too many levels of symbolic links (os error 40)".toList
  | zeroByte => "file name contained an unexpected NUL byte".toList
  | refused reason => reason

end FileError

/-- The most links that are followed on one way. -/
def linkLimit : Nat := 40

/-- The most bytes in a name. -/
def nameLimit : Nat := 255

/-- The most bytes in a path. -/
def pathLimit : Nat := 4095

namespace Node

/-- Follows the parts of a path from a folder, with at most `links` links on the way: the location that
    they lead to, and how many more links may be followed from there. -/
def follow (tree : Node) (links : Nat) (here : Location) : List Bytes → Except FileError (Location × Nat)
  | [] => .ok (here, links)
  | part :: parts =>
    match tree.find? here with
    | some (folder entries _) =>
      if part = [] ∨ part = [Path.dot] then follow tree links here parts
      else if part = [Path.dot, Path.dot] then follow tree links here.dropLast parts
      else if part.length > nameLimit then .error .nameTooLong
      else
        match entries.find? part with
        | none => .error .notFound
        | some (link target) =>
          match links with
          | 0 => .error .linkLoop
          | links + 1 =>
            let start := if target.head? = some Path.slash then [] else here
            follow tree links start (splitAt Path.slash target ++ parts)
        | some _ => follow tree links (here ++ [part]) parts
    | some _ => .error .notFolder
    | none => .error .notFound
  termination_by parts => (links, parts.length)

theorem links_le_of_follow {tree : Node} {links left : Nat} {here location : Location} {parts : List Bytes}
    (h : tree.follow links here parts = .ok (location, left)) : left ≤ links := by
  fun_induction follow tree links here parts <;> grind

/-- What is wrong with a path before any part of it is followed. -/
def refuse? (path : Bytes) : Option FileError :=
  if 0 ∈ path then some .zeroByte
  else if path = [] then some .notFound
  else if path.length > pathLimit then some .nameTooLong
  else none

/-- The folder that following a path starts from. -/
def start (working : Location) (path : Bytes) : Location :=
  if path.head? = some Path.slash then [] else working

/-- Where a path leads from the working folder. -/
def locate (tree : Node) (working : Location) (path : Bytes) : Except FileError Location :=
  match refuse? path with
  | some error => .error error
  | none => (tree.follow linkLimit (start working path) (splitAt Path.slash path)).map (·.1)

/-- What stands where a path leads. -/
def stat (tree : Node) (working : Location) (path : Bytes) : Except FileError Node := do
  match tree.find? (← tree.locate working path) with
  | some node => .ok node
  | none => .error .notFound

/-- Whether a path leads to a folder. -/
def hasFolder (tree : Node) (working : Location) (path : Bytes) : Bool :=
  match tree.stat working path with
  | .ok node => node.isFolder
  | .error _ => false

/-- Whether a path leads to a file. -/
def hasFile (tree : Node) (working : Location) (path : Bytes) : Bool :=
  match tree.stat working path with
  | .ok node => node.isFile
  | .error _ => false

/-- The content of the file that a path leads to. -/
def read (tree : Node) (working : Location) (path : Bytes) : Except FileError Bytes := do
  match ← tree.stat working path with
  | file content => .ok content
  | locked reason => .error (.refused reason)
  | special reason => .error (.refused reason)
  | _ => .error .isFolder

/-- The parts of a path up to the last name, and that name. Slashes after the name make it the empty
    name, which is no file's. -/
def partsOf (path : Bytes) : List Bytes × Bytes :=
  let parts := splitAt Path.slash path
  match parts.reverse.dropWhile (· = []) with
  | [] => (parts, [])
  | last :: before =>
    if path.getLast? ≠ some Path.slash then (before.reverse, last)
    else if last = [Path.dot] ∨ last = [Path.dot, Path.dot] then ((last :: before).reverse, [])
    else (before.reverse, [])

/-- Where a file written to a path comes to lie, with at most `links` links on the way. A link that the
    path ends in is followed to where its target leads. -/
def destinationWithin (tree : Node) (links : Nat) (working : Location) (path : Bytes) :
    Except FileError Location :=
  let (parts, last) := partsOf path
  match h : tree.follow links (start working path) parts with
  | .error error => .error error
  | .ok (here, left) =>
    match tree.find? here with
    | some (folder entries _) =>
      if last = [] ∨ last = [Path.dot] ∨ last = [Path.dot, Path.dot] then .error .isFolder
      else if last.length > nameLimit then .error .nameTooLong
      else
        match entries.find? last with
        | some (folder _ _) => .error .isFolder
        | some (special reason) => .error (.refused reason)
        | some (link target) =>
          match left, links_le_of_follow h with
          | 0, _ => .error .linkLoop
          | left + 1, _ => tree.destinationWithin left here target
        | _ => .ok (here ++ [last])
    | some _ => .error .notFolder
    | none => .error .notFound
  termination_by links

/-- Where a file written to a path comes to lie. -/
def destination (tree : Node) (working : Location) (path : Bytes) : Except FileError Location :=
  match refuse? path with
  | some error => .error error
  | none => tree.destinationWithin linkLimit working path

/-- The tree after a file was written to a path. Even where the path leads to a place for it, the system
    can refuse to write there, as `refuses?` says: then the file is not written in part either. -/
def write (tree : Node) (refuses? : Location → Bytes → Option FileError) (working : Location)
    (path content : Bytes) : Except FileError Node :=
  match tree.destination working path with
  | .error error => .error error
  | .ok destination =>
    match refuses? destination content with
    | some error => .error error
    | none => .ok (tree.put destination (file content))

end Node

end Relink

import Relink.Text.Utf8

/-! # File paths

A path is a byte string whose parts are separated by slashes. Its components leave out what does not
matter: repeated slashes, a slash at the end, and a dot that stands for the current folder, except the
first part of a relative path. Two dots are kept, never resolved. -/

namespace Relink.Path

/-- The byte that separates the parts of a path. -/
def slash : UInt8 := 0x2f

/-- The byte before a file name's extension; alone, the current folder. -/
def dot : UInt8 := 0x2e

/-- A component of a path. -/
inductive Component where
  /-- The slash that an absolute path starts with. -/
  | root
  /-- The current folder, at the start of a relative path. -/
  | current
  /-- The folder above. -/
  | parent
  /-- A name. -/
  | name (bytes : Bytes)
  deriving DecidableEq, Repr

namespace Component

/-- A component as it is written in a path. -/
def written : Component → Bytes
  | root => [slash]
  | current => [dot]
  | parent => [dot, dot]
  | name bytes => bytes

/-- The component that a part of a path stands for, if it stands for any. -/
def ofPart? (part : Bytes) : Option Component :=
  if part = [] ∨ part = [dot] then none
  else if part = [dot, dot] then some parent
  else some (name part)

end Component

/-- The components of a path. -/
def components (path : Bytes) : List Component :=
  match splitAt slash path with
  | [] => []
  | first :: parts =>
    let rest := parts.filterMap Component.ofPart?
    if first = [] then if parts = [] then [] else .root :: rest
    else if first = [dot] then .current :: rest
    else (Component.ofPart? first).toList ++ rest

/-- The components of `path` below `root`, when `root`'s components come first. -/
def below? (root path : Bytes) : Option (List Component) := after? (components root) (components path)

/-- The last component, when it is a name. -/
def fileName? (path : Bytes) : Option Bytes :=
  match (components path).getLast? with
  | some (.name bytes) => some bytes
  | _ => none

/-- What follows the last dot of a file name, unless that dot comes first or there is none. -/
def nameExtension? (name : Bytes) : Option Bytes :=
  if dot ∈ name.drop 1 then some (name.reverse.takeWhile (· ≠ dot)).reverse else none

/-- The extension of a path's file name. -/
def extension? (path : Bytes) : Option Bytes := (fileName? path).bind nameExtension?

/-- A path inside a folder; an absolute path stays as it is. -/
def join (folder path : Bytes) : Bytes :=
  if path.head? = some slash then path
  else if folder = [] ∨ folder.getLast? = some slash then folder ++ path
  else folder ++ slash :: path

end Relink.Path

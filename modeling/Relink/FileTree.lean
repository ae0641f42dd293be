import Relink.Path

/-! # File trees

A file tree is a value: files with their content, symbolic links with their target, folders with named
entries, and what can be none of these. A file may be locked against reading, and a folder may refuse to
be listed, while its entries can be reached. A location is the list of names that leads from the topmost
folder to an entry, passing through folders only. -/

namespace Relink

mutual

/-- An entry of a file tree. -/
inductive Node where
  | file (content : Bytes)
  /-- A file that is there but cannot be read, with the system's words for why. -/
  | locked (reason : Text)
  /-- A socket or the like, with the system's words for why it cannot be opened. -/
  | special (reason : Text)
  | link (target : Bytes)
  /-- A folder. If it cannot be listed, `refusal` holds the system's words for why. -/
  | folder (entries : Folder) (refusal : Option Text)

/-- The named entries of a folder. -/
inductive Folder where
  | empty
  | entry (name : Bytes) (node : Node) (rest : Folder)

end

/-- The names that lead to an entry from the topmost folder. -/
abbrev Location := List Bytes

namespace Folder

/-- The entry of a name. -/
def find? (name : Bytes) : Folder → Option Node
  | empty => none
  | entry other node rest => if name = other then some node else rest.find? name

/-- Replaces the entry of a name, or adds it at the end. -/
def set (name : Bytes) (new : Node) : Folder → Folder
  | empty => entry name new empty
  | entry other node rest =>
    if name = other then entry other new rest else entry other node (rest.set name new)

/-- The entries in order. -/
def toList : Folder → List (Bytes × Node)
  | empty => []
  | entry name node rest => (name, node) :: rest.toList

end Folder

namespace Node

/-- The tree with nothing in it. -/
def bare : Node := folder .empty none

/-- Whether the entry is a file. -/
def isFile : Node → Bool
  | file _ => true
  | locked _ => true
  | _ => false

/-- Whether the entry is a folder. -/
def isFolder : Node → Bool
  | folder _ _ => true
  | _ => false

/-- The entry as a folder that cannot be listed. -/
def sealed (reason : Text) : Node → Node
  | folder entries _ => folder entries (some reason)
  | node => node

/-- The entry at a location. -/
def find? : Node → Location → Option Node
  | node, [] => some node
  | folder entries _, name :: names => (entries.find? name).bind (·.find? names)
  | _, _ :: _ => none

/-- The entry that names lead to through folders that can be listed. -/
def listed? : Node → Location → Option Node
  | node, [] => some node
  | folder entries none, name :: names => (entries.find? name).bind (·.listed? names)
  | _, _ :: _ => none

/-- The tree with another entry at a location. Folders that are missing on the way are made; what is
    no folder stays as it is. -/
def put (tree : Node) (location : Location) (new : Node) : Node :=
  match location, tree with
  | [], _ => new
  | name :: names, folder entries refusal =>
    folder (entries.set name (put ((entries.find? name).getD bare) names new)) refusal
  | _ :: _, node => node

end Node

end Relink

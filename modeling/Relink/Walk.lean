import Relink.Ignore.Layer
import Relink.ProjectFile
import Relink.Sorted

/-! # Walking a project

A walk visits every entry below a root that no rule leaves out. A folder that is left out is not entered,
nor is a link to a folder, apart from the root itself. A folder that cannot be opened is reported, and the
walk goes on. Of the entries visited, those count whose path leads to a file, also through links. They are
yielded in the order of their components. -/

namespace Relink

/-- Which entries a walk leaves out. -/
structure Filter where
  /-- Rules given from outside, which decide the other way round. -/
  exclusions : List Ignore.Rule
  /-- Whether hidden entries and what ignore files list are left out, too. -/
  standard : Bool

/-- Where a walk stands: the path and the location of its root, the layers of the folders above the
    entry, and the user's own rules. -/
structure Scope where
  path : Bytes
  root : Location
  layers : List Ignore.Layer
  ownRule? : Location → Bool → Option Decision

namespace Filter

/-- Whether a name marks a hidden entry: it starts with a dot, but does not end in one. -/
def isHidden (name : Bytes) : Bool := name.head? = some Path.dot && name.getLast? ≠ some Path.dot

/-- Whether the standard rules leave out an entry. An entry that some rule takes in is not hidden. -/
def standardSkips (scope : Scope) (names : List Bytes) (isFolder : Bool) : Bool :=
  match Ignore.decideIn? scope.layers scope.ownRule? (scope.root ++ names) isFolder with
  | some .leaveOut => true
  | some .takeIn => false
  | none => names.getLast?.any isHidden

/-- Whether an entry below the root is left out. The rules given from outside come first. -/
def skips (filter : Filter) (scope : Scope) (names : List Bytes) (isFolder : Bool) : Bool :=
  match Ignore.override? filter.exclusions (joinWith [Path.slash] names) isFolder with
  | some .leaveOut => true
  | some .takeIn => false
  | none => filter.standard && standardSkips scope names isFolder

end Filter

/-- A walk's surroundings. -/
structure Walk where
  tree : Node
  /-- The folder that relative paths start from. -/
  working : Location
  /-- What the user's own ignore file decides about a location. -/
  ownRule? : Location → Bool → Option Decision
  filter : Filter

namespace Walk

/-- The path of an entry below the root. -/
def pathOf (root : Bytes) (names : List Bytes) : Bytes := names.foldl Path.join root

/-- The scope inside a folder. -/
def enter (walk : Walk) (scope : Scope) (names : List Bytes) : Scope :=
  if walk.filter.standard then
    { scope with
      layers :=
        .ofFolder walk.tree walk.working (scope.root ++ names) (pathOf scope.path names) :: scope.layers }
  else scope

/-- Why the folder at a path cannot be opened: the path leads to no entry, or the folder refuses. -/
def closed? (walk : Walk) (path : Bytes) (refusal : Option Text) : Option FileError :=
  match walk.tree.stat walk.working path with
  | .error error => some error
  | .ok _ => refusal.map .refused

/-- The message on a path that cannot be opened. -/
def fault (path : Bytes) (error : FileError) : Text :=
  let path := Utf8.decodeLossy path
  path ++ ": IO error for operation on ".toList ++ path ++ ": ".toList ++ error.message

mutual

/-- What a walk meets at an entry, which `names` lead to from the root: the entry, and what a folder holds
    or the message on why it cannot be opened. -/
def visit (walk : Walk) (scope : Scope) (names : List Bytes) : Node → List (Except Text (List Bytes))
  | .folder entries refusal =>
    .ok names ::
      match walk.closed? (pathOf scope.path names) refusal with
      | some error => [.error (fault (pathOf scope.path names) error)]
      | none => visitAll walk (walk.enter scope names) names entries
  | _ => [.ok names]

/-- What a walk meets at the entries of a folder, without those that are left out. -/
def visitAll (walk : Walk) (scope : Scope) (names : List Bytes) : Folder → List (Except Text (List Bytes))
  | .empty => []
  | .entry name node rest =>
    (if walk.filter.skips scope (names ++ [name]) node.isFolder then []
      else visit walk scope (names ++ [name]) node) ++
    visitAll walk scope names rest

end

/-- The entries among what a walk has met. -/
def entriesOf (met : List (Except Text (List Bytes))) : List (List Bytes) := met.filterMap (·.toOption)

/-- The entries among what a walk has met whose paths lead to files. -/
def filesOf (walk : Walk) (root : Bytes) (met : List (Except Text (List Bytes))) : List (List Bytes) :=
  (entriesOf met).filter fun names => walk.tree.hasFile walk.working (pathOf root names)

/-- The messages among what a walk has met. -/
def faultsOf (met : List (Except Text (List Bytes))) : List Text :=
  met.filterMap fun
    | .ok _ => none
    | .error message => some message

/-- The files that a walk comes to from its root, in the order of their components. -/
def below (walk : Walk) (scope : Scope) (node : Node) : List (List Bytes) :=
  Sorted.sort (fun a b => decide (a ≤ b)) (walk.filesOf scope.path (walk.visit scope [] node))

/-- The layers of the folders above a location, the nearest first. -/
def layersAbove (walk : Walk) (location : Location) : List Ignore.Layer :=
  ((List.range location.length).map fun n =>
    .ofFolder walk.tree walk.working (location.take n) (Ignore.pathOf (location.take n))).reverse

/-- The scope at the root of a walk. Nothing above a root that is no folder matters. -/
def scopeAt (walk : Walk) (root : Bytes) (location : Location) (node : Node) : Scope :=
  ⟨root, location, if walk.filter.standard && node.isFolder then walk.layersAbove location else [],
    walk.ownRule?⟩

end Walk

/-- What a walk comes to. -/
structure Walked where
  /-- The paths of the files, in order. -/
  paths : List Bytes
  /-- The lines printed as complaints. -/
  complaints : List Text
  deriving DecidableEq, Repr

namespace Walk

/-- A message on a walk. -/
def complaint (message : Text) : Text := "Error walking directory: ".toList ++ message

/-- The message on what is wrong with the ignore files of layers, if anything is; they were read from the
    topmost one down. -/
def layerFaults (layers : List Ignore.Layer) : List Text :=
  let faults := layers.reverse.flatMap (·.faults)
  if faults.isEmpty then [] else [joinWith ['\n'] faults]

/-- Walks from a root that leads to a location. -/
def runAt (walk : Walk) (root : Bytes) (location : Location) (node : Node) : Walked :=
  let scope := walk.scopeAt root location node
  ⟨(walk.below scope node).map (pathOf root),
    (layerFaults scope.layers ++ faultsOf (walk.visit scope [] node)).map complaint⟩

/-- Walks from a root. A root that is a file is all that the walk comes to. -/
def run (walk : Walk) (root : Bytes) : Walked :=
  match walk.tree.locate walk.working root with
  | .error error => ⟨[], [complaint (fault root error)]⟩
  | .ok location =>
    match walk.tree.find? location with
    | some node => walk.runAt root location node
    | none => ⟨[], [complaint (fault root .notFound)]⟩

/-- The project files among the files of a walk. -/
def projectFiles (root : Bytes) (walked : Walked) : List ProjectFile :=
  (walked.paths.filterMap (ProjectFile.ofPath? root)).filter fun file => file.isEditable || file.isIndexable

end Walk

end Relink

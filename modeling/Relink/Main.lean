import Relink.Archive.Zip
import Relink.CommandLine

/-! # The program

The program reads into a file tree what a run can see of the file system, runs, and writes the archive
where the run has put it. The user's own ignore file is the one that stands where such a file is looked for
unless a configuration names another; the configuration is not read. -/

namespace Relink.Program

/-- The location that an absolute path without links leads to. -/
def locationOf (path : String) : Location :=
  (splitAt Path.slash (Utf8.encode path.toList)).filter (!·.isEmpty)

/-- The tree with an entry, unless there is one already. -/
def addNew (tree : Node) (location : Location) (node : Node) : Node :=
  if (tree.find? location).isSome then tree else tree.put location node

/-- Whether the content of a file of this name can matter to a run. -/
def isOfInterest (name : Bytes) : Bool :=
  let names := [".ignore", ".gitignore", ".git", "commondir", "exclude"].map fun n => Utf8.encode n.toList
  names.contains name || ((Path.nameExtension? name).map Utf8.decodeLossy).any Resource.editable.contains

/-- The words for a file that cannot be read. -/
def reason : IO.Error → Text
  | .permissionDenied .. => "Permission denied (os error 13)".toList
  | error => (toString error).toList

/-- The file at a path, with its content if that can matter. -/
def fileAt (path : String) (name : Bytes) : IO Node := do
  if isOfInterest name then
    try return .file (← IO.FS.readBinFile path).toList
    catch error => return .locked (reason error)
  else return .file []

/-- A socket or the like. -/
def device : Node := .special "No such device or address (os error 6)".toList

/-- The tree with an entry of a folder, and the file that it leads to if it is a link. What the entry
    holds is not read. -/
def addEntry (tree : Node) (entry : IO.FS.DirEntry) : IO Node := do
  let name := Utf8.encode entry.fileName.toList
  let location := locationOf entry.root.toString ++ [name]
  match (← entry.path.symlinkMetadata).type with
  | .dir => return addNew tree location .bare
  | .file => return addNew tree location (← fileAt entry.path.toString name)
  | .symlink =>
    try
      let target ← IO.FS.realPath entry.path
      let targetNode ← if (← target.isDir) then pure Node.bare else fileAt target.toString name
      let tree := addNew tree (locationOf target.toString) targetNode
      return addNew tree location (.link (Utf8.encode target.toString.toList))
    catch _ => return addNew tree location (.link name)
  | .other => return addNew tree location device

/-- The tree with what lies on the way of a path, as far as the path leads. -/
def addWay (tree : Node) (path : String) : IO Node := do
  let mut tree := tree
  let mut folder ← IO.FS.realPath (if path.startsWith "/" then "/" else ".")
  tree := addNew tree (locationOf folder.toString) .bare
  for part in path.splitOn "/" do
    unless part = "" || part = "." do
      try
        unless part = ".." do tree ← addEntry tree ⟨folder, part⟩
        folder ← IO.FS.realPath (folder / part)
      catch _ => return tree
  return tree

/-- The tree with a folder closed that cannot be listed. -/
def close (tree : Node) (location : Location) (reason : Text) : Node :=
  match tree.find? location with
  | some folder => tree.put location (folder.sealed reason)
  | none => tree

/-- The tree with all that a folder holds, as far as it can be listed. -/
partial def addAll (tree : Node) (path : String) : IO Node := do
  let folder ← IO.FS.realPath path
  let mut tree := tree
  let mut entries := #[]
  try entries ← folder.readDir
  catch error => return close tree (locationOf folder.toString) (reason error)
  for entry in entries do
    -- What cannot be looked at, as below a folder that may be listed but not entered, is left out.
    try
      tree ← addEntry tree entry
      if (← entry.path.symlinkMetadata).type matches .dir then tree ← addAll tree entry.path.toString
    catch _ => pure ()
  return tree

/-- The tree with the ignore files of the folders on the way to a location. -/
def addIgnoreFiles (tree : Node) (location : Location) : IO Node := do
  let mut tree := tree
  for n in List.range location.length do
    let folder := String.ofList (Utf8.decodeLossy (Ignore.pathOf (location.take n)))
    for name in [".ignore", ".gitignore", ".git/info/exclude"] do
      tree ← addWay tree (folder ++ "/" ++ name)
  return tree

/-- A path as the file system takes it. -/
def written (path : Bytes) : String := String.ofList (Utf8.decodeLossy path)

/-- What a run with these settings can see. -/
def treeFor (tree : Node) (working : Location) (settings : Settings) : IO Node := do
  let tree ← addWay tree (written settings.output)
  let tree ← addWay tree (written settings.path)
  match tree.locate working settings.path with
  | .error _ => return tree
  | .ok location =>
    if tree.hasFolder working settings.path then
      addIgnoreFiles (← addAll tree (written settings.path)) location
    else return tree

/-- The tree with the configuration file of the working folder. -/
def addSettings (working : Location) : IO Node := do
  let name := String.ofList Settings.fileName
  let tree := Node.bare.put working .bare
  try return tree.put (working ++ [Utf8.encode Settings.fileName]) (.file (← IO.FS.readBinFile name).toList)
  catch _ => return tree

/-- The rules of the user's own ignore file; rules that cannot be used together are none. -/
def ownRules : IO (List Ignore.Rule) := do
  let folder ← match ← IO.getEnv "XDG_CONFIG_HOME" with
    | some folder => pure folder
    | none => pure (((← IO.getEnv "HOME").getD "") ++ "/.config")
  try
    let content ← IO.FS.readBinFile (folder ++ "/git/ignore")
    let (rules, _) := Ignore.rulesOf 1 (Ignore.linesOf content.toList)
    return if (Ignore.overrun? rules).isSome then [] else rules
  catch _ => return []

/-- The system that a run relies on; `refusal` is the error when the archive has turned out not to be
    writable. -/
def system (ownRules : List Ignore.Rule) (refusal : Option FileError) : Relink.System where
  archiver := Zip.archiver
  refusesWrite? _ _ := refusal
  ownRule? location isFolder := Ignore.decide? ownRules (joinWith [Path.slash] location) isFolder

/-- Writes the archive of a run where the run has put it, if it succeeded. -/
def deliver (outcome : CommandLine.Outcome) (working : Location) (output : Bytes) :
    IO (Option FileError) := do
  if outcome.code = 0 then
    match outcome.tree.read working output with
    | .error _ => return none
    | .ok content =>
      try
        IO.FS.writeBinFile (written output) ⟨content.toArray⟩
        return none
      catch error => return some (.refused (reason error))
  else return none

/-- Prints what the program leaves behind and returns its exit code. -/
def finish (outcome : CommandLine.Outcome) : IO UInt32 := do
  IO.print (String.ofList outcome.output)
  IO.eprint (String.ofList outcome.complaints)
  return outcome.code.toUInt32

/-- Runs the program in the working folder. -/
def run (args : List String) : IO UInt32 := do
  let arguments := args.map String.toList
  let working := locationOf (← IO.FS.realPath ".").toString
  let own ← ownRules
  let tree ← addSettings working
  match CommandLine.read arguments with
  | .error _ => finish (CommandLine.run (system own none) tree working arguments)
  | .ok said =>
    let settings := CommandLine.overrule (CommandLine.settingsIn tree working) said
    let tree ← treeFor tree working settings
    let outcome := CommandLine.run (system own none) tree working arguments
    match ← deliver outcome working settings.output with
    | none => finish outcome
    | some error => finish (CommandLine.run (system own (some error)) tree working arguments)

end Relink.Program

/-- The program. -/
def main (args : List String) : IO UInt32 := Relink.Program.run args

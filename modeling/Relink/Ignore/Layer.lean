import Relink.FileTree.Access
import Relink.Ignore.Rule

/-! # Layers of ignore files

Every folder from the topmost one down to the entry in question is a layer with the rules of its
ignore files. The nearest layer that decides wins. A file `.ignore` outranks `.gitignore`, which
outranks the exclude file of a repository; the latter two count only inside a repository and not
beyond its top folder. Last come the user's own rules, for all repositories. Which file they stand in is a
matter of the user's configuration, so what they decide is given from outside. -/

namespace Relink.Ignore

/-- The rules of a folder. -/
structure Layer where
  location : Location
  ignoreRules : List Rule
  gitRules : List Rule
  excludeRules : List Rule
  /-- The folder is the top of a repository. -/
  hasRepository : Bool
  /-- The messages on what is wrong with the ignore files. -/
  faults : List Text

/-! ### Reading ignore files -/

/-- The lines of a file's content; a carriage return before the end of a line does not count. -/
def linesOf (content : Bytes) : List Bytes :=
  let pieces := splitAt 0x0a content
  let ended := pieces.dropLast.map fun line =>
    if line.getLast? = some 0x0d then line.dropLast else line
  match pieces.getLast? with
  | some (b :: last) => ended ++ [b :: last]
  | _ => ended

/-- What is wrong with a line. -/
inductive Problem where
  /-- It is no rule. -/
  | fault (f : Fault)
  /-- It is no text, so that reading stops. -/
  | noText
  deriving DecidableEq, Repr

namespace Problem

/-- The words for a problem. -/
def message : Problem → Text
  | fault f => f.message
  | noText => "stream did not contain valid UTF-8".toList

end Problem

/-- The rules that lines write, and the problems with the numbers of their lines. A byte order mark at
    the start of the first line does not count. -/
def rulesOf (number : Nat) : List Bytes → List Rule × List (Nat × Problem)
  | [] => ([], [])
  | line :: lines =>
    match Utf8.decode? line with
    | none => ([], [(number, .noText)])
    | some text =>
      let text := if number = 1 then text.dropWhile (· = '\uFEFF') else text
      let (rules, problems) := rulesOf (number + 1) lines
      match Rule.ofLine true text with
      | .error fault => (rules, (number, .fault fault) :: problems)
      | .ok rule => (rule.toList ++ rules, problems)

/-- The messages on the problems of a file. That reading stopped is told only beside other problems. -/
def messagesOn (path : Bytes) (problems : List (Nat × Problem)) : List Text :=
  match problems with
  | [(_, .noText)] => []
  | problems =>
    problems.map fun (number, problem) =>
      Utf8.decodeLossy path ++ ": line ".toList ++ Text.ofNat number ++ ": ".toList ++ problem.message

/-- The path of a location. -/
def pathOf (location : Location) : Bytes := Path.slash :: joinWith [Path.slash] location

/-- The rules of an ignore file, and the messages on what is wrong with it. Rules that cannot be used
    together are none. -/
def rulesAt (tree : Node) (working : Location) (path : Bytes) : List Rule × List Text :=
  match tree.read working path with
  | .error _ => ([], [])
  | .ok content =>
    let (rules, problems) := rulesOf 1 (linesOf content)
    match overrun? rules with
    | some o => ([], messagesOn path problems ++ [o.message])
    | none => (rules, messagesOn path problems)

/-- An entry of the folder at a path. -/
def entryOf (folder : Bytes) (name : String) : Bytes := Path.join folder (Utf8.encode name.toList)

/-! ### Repositories -/

/-- The message on a file that cannot be read. -/
def unreadable (path : Bytes) (reason : Text) : Text := Utf8.decodeLossy path ++ ": ".toList ++ reason

/-- The first line of the content of the file at a path, if it has one; it has to be a text. -/
def firstLine (path content : Bytes) : Except Text (Option Text) :=
  match linesOf content with
  | [] => .ok none
  | line :: _ =>
    match Utf8.decode? line with
    | none => .error (unreadable path Problem.noText.message)
    | some text => .ok (some text)

/-- The folder that the file `commondir` of a folder leads to. -/
def commonPath (tree : Node) (working : Location) (gitPath : Bytes) : Except Text (Option Bytes) :=
  let path := entryOf gitPath "commondir"
  match tree.read working path with
  | .error .isFolder => .error (unreadable path FileError.isFolder.message)
  | .error _ => .ok none
  | .ok content =>
    (firstLine path content).map (·.map fun common =>
      if common.head? = some '.' then Path.join gitPath (Utf8.encode common) else Utf8.encode common)

/-- The folder with a repository's own files, if it can be found: `.git` itself, or the folder that the
    files `.git` and `commondir` lead to. -/
def repositoryPath (tree : Node) (working : Location) (folder : Bytes) : Except Text (Option Bytes) :=
  let git := entryOf folder ".git"
  if tree.hasFile working git then
    match tree.read working git with
    | .error error => .error (unreadable git error.message)
    | .ok content =>
      match firstLine git content with
      | .error message => .error message
      | .ok line =>
        match line.bind (after? "gitdir: ".toList) with
        | none => .ok none
        | some gitFolder => commonPath tree working (Utf8.encode gitFolder)
  else .ok (some git)

/-- The rules of a repository's exclude file, and the messages on what is wrong with it. -/
def excludeRulesAt (tree : Node) (working : Location) (folder : Bytes) : List Rule × List Text :=
  match repositoryPath tree working folder with
  | .error message => ([], [message])
  | .ok none => ([], [])
  | .ok (some path) => rulesAt tree working (entryOf path "info/exclude")

/-- Whether the folder at a path is the top of a repository. -/
def isRepository (tree : Node) (working : Location) (folder : Bytes) : Bool :=
  [".git", ".jj"].any fun name => (tree.stat working (entryOf folder name)).toOption.isSome

namespace Layer

/-- The layer of the folder at a location that is reached by a path. -/
def ofFolder (tree : Node) (working folder : Location) (path : Bytes) : Layer :=
  let (ignoreRules, ignoreFaults) := rulesAt tree working (entryOf path ".ignore")
  let (gitRules, gitFaults) := rulesAt tree working (entryOf path ".gitignore")
  let (excludeRules, excludeFaults) := excludeRulesAt tree working path
  ⟨folder, ignoreRules, gitRules, excludeRules, isRepository tree working path,
    ignoreFaults ++ gitFaults ++ excludeFaults⟩

/-- The path of a location below the layer's folder. -/
def relative (layer : Layer) (location : Location) : Bytes :=
  joinWith [Path.slash] (location.drop layer.location.length)

end Layer

/-! ### Deciding -/

/-- The layers from the nearest one up to the top of the repository. -/
def untilRepository : List Layer → List Layer
  | [] => []
  | layer :: layers => if layer.hasRepository then [layer] else layer :: untilRepository layers

/-- What the nearest layer decides whose rules, as `rules` picks them, speak of a location. -/
def nearest? (rules : Layer → List Rule) (layers : List Layer) (location : Location) (isFolder : Bool) :
    Option Decision :=
  layers.findSome? fun layer => decide? (rules layer) (layer.relative location) isFolder

/-- What layers, the nearest first, and the user's own rules decide about a location. -/
def decideIn? (layers : List Layer) (ownRule? : Location → Bool → Option Decision) (location : Location)
    (isFolder : Bool) : Option Decision :=
  let inRepository := layers.any (·.hasRepository)
  let gitLayers := if inRepository then untilRepository layers else []
  nearest? (·.ignoreRules) layers location isFolder
    <|> nearest? (·.gitRules) gitLayers location isFolder
    <|> nearest? (·.excludeRules) gitLayers location isFolder
    <|> if inRepository then ownRule? location isFolder else none

end Relink.Ignore

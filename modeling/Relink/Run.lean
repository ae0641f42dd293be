import Relink.Pack
import Relink.Settings
import Relink.Text.Quoted
import Relink.Walk

/-! # A run

A run walks the project once, indexes its files, repairs and packs the editable ones, and writes the
archive in one go. It changes no other file, and when it fails it changes none. -/

namespace Relink

/-- What a run relies on besides the file tree. -/
structure System where
  archiver : Archiver
  /-- Why the system does not write a content to a location. -/
  refusesWrite? : Location → Bytes → Option FileError
  /-- What the user's own ignore file decides about a location. -/
  ownRule? : Location → Bool → Option Decision

/-- Why a run fails. -/
inductive Failure where
  /-- The project's root is no folder. -/
  | missingRoot (path : Bytes)
  /-- The patterns of the settings are no globs, or cannot be used together. -/
  | badPatterns (refusal : Ignore.Refusal)
  /-- The archive does not take an entry. -/
  | badEntry (rejection : Rejection)
  /-- The file of the archive cannot be made. -/
  | unfinished (output : Bytes) (error : ArchiveError)
  /-- The file of the archive cannot be written. -/
  | unwritable (output : Bytes) (error : FileError)
  deriving DecidableEq, Repr

namespace Failure

/-- The words for an entry that an archive does not take. -/
def entryMessage (rejection : Rejection) : Text :=
  "failed to add ".toList ++ rejection.name ++ " to archive: ".toList ++ rejection.error.message

/-- The words for an archive that cannot be written. -/
def archiveMessage (output : Bytes) (error : FileError) : Text :=
  "failed to write archive ".toList ++ Text.quotedPath output ++ ": ".toList ++ error.message

/-- The words for what a run was about when it failed. -/
def deliveryMessage (output : Bytes) : Text := "Failed to write archive: ".toList ++ Text.quotedPath output

/-- What happened, followed by what caused it, that by what caused it in turn, and so on. -/
def causes : Failure → List Text
  | missingRoot path => ["project root does not exist: ".toList ++ Text.quotedPath path]
  | badPatterns refusal => [refusal.message]
  | badEntry rejection => entryMessage rejection :: rejection.error.message :: rejection.error.causes
  | unfinished output error =>
    deliveryMessage output :: ("failed to finalize archive: ".toList ++ error.message) :: error.message ::
      error.causes
  | unwritable output error => [deliveryMessage output, archiveMessage output error, error.message]

end Failure

/-- What a run leaves behind. -/
structure Report where
  outcome : Except Failure Summary
  /-- The lines printed. -/
  lines : List Text
  /-- The lines printed as complaints. -/
  complaints : List Text
  /-- The file tree after the run. -/
  tree : Node

namespace Summary

/-- The lines that sum up a run. -/
def lines (settings : Settings) (summary : Summary) : List Text :=
  let tally := summary.tally
  ["Wrote ".toList ++ Utf8.decodeLossy settings.output ++ " with ".toList ++ Text.ofNat tally.files ++
    " files. Total replacements: ".toList ++ Text.ofNat tally.changes ++ ".".toList] ++
  (if tally.warnings > 0 then
    [Text.ofNat tally.modified ++ " files rewritten, ".toList ++ Text.ofNat tally.warnings ++
      " references flagged and left unchanged.".toList]
  else []) ++
  (if tally.skipped > 0 then ["Skipped ".toList ++ Text.ofNat tally.skipped ++ " unreadable files.".toList]
  else []) ++
  (if summary.ambiguous.isEmpty then []
  else
    ["Note: ".toList ++ Text.ofNat summary.ambiguous.length ++
      " ambiguous basenames could not be auto-resolved.".toList,
     "Examples: ".toList ++ Text.quotedList (summary.ambiguous.take settings.maxExamples)])

end Summary

namespace Run

/-- The text of a file. -/
def readText (tree : Node) (file : ProjectFile) : Except Text Text :=
  match tree.read [] file.path with
  | .ok content => .ok (Utf8.decodeLossy content)
  | .error error => .error error.message

/-- The files of a project that a walk comes to, and what it complains about. -/
def discover (system : System) (tree : Node) (working : Location) (settings : Settings) (root : Bytes) :
    Except Failure (List ProjectFile × List Text) :=
  match Ignore.exclusions settings.ignorePatterns with
  | .error refusal => .error (.badPatterns refusal)
  | .ok rules =>
    let walked := (Walk.mk tree working system.ownRule? ⟨rules, settings.respectGitignore⟩).run root
    .ok (Walk.projectFiles root walked, walked.complaints)

/-- The editable ones of a project's files, each with what reading it gave. -/
def readAll (tree : Node) (files : List ProjectFile) : List (ProjectFile × Except Text Text) :=
  (files.filter ProjectFile.isEditable).map fun file => (file, readText tree file)

/-- The line printed first when every change is printed. -/
def indexLine (index : Index) (files : List ProjectFile) : Text :=
  "Indexed ".toList ++ Text.ofNat index.size ++ " basenames, ".toList ++
    Text.ofNat (files.filter ProjectFile.isEditable).length ++ " editable files.".toList

/-- Makes the file of an archive and writes it where the settings say. -/
def write (system : System) (tree : Node) (working : Location) (settings : Settings) (archive : Archive) :
    Except Failure Node :=
  match system.archiver.finish archive with
  | .error error => .error (.unfinished settings.output error)
  | .ok content =>
    match tree.write system.refusesWrite? working settings.output content with
    | .error error => .error (.unwritable settings.output error)
    | .ok tree => .ok tree

/-- Packs the files of a project and writes the archive. -/
def deliver (system : System) (tree : Node) (working : Location) (settings : Settings)
    (files : List ProjectFile) (complaints : List Text) : Report :=
  let index := Index.ofFiles files
  let packed := Packing.into system.archiver index settings.verbose [] (readAll tree files)
  let lines := (if settings.verbose then [indexLine index files] else []) ++ packed.lines
  let complaints := complaints ++ packed.complaints
  match packed.outcome with
  | .error rejection => ⟨.error (.badEntry rejection), lines, complaints, tree⟩
  | .ok (archive, summary) =>
    match write system tree working settings archive with
    | .error failure => ⟨.error failure, lines, complaints, tree⟩
    | .ok tree => ⟨.ok summary, lines ++ summary.lines settings, complaints, tree⟩

/-- Runs with given settings from a working folder. -/
def run (system : System) (tree : Node) (working : Location) (settings : Settings) : Report :=
  match tree.locate working settings.path, tree.hasFolder working settings.path with
  | .ok location, true =>
    match discover system tree working settings (Ignore.pathOf location) with
    | .error failure => ⟨.error failure, [], [], tree⟩
    | .ok (files, complaints) => deliver system tree working settings files complaints
  | _, _ => ⟨.error (.missingRoot settings.path), [], [], tree⟩

end Run

end Relink

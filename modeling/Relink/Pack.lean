import Relink.Archive
import Relink.Repair

/-! # Packing

Packing repairs files one by one and adds the results to an archive. A file that cannot be read is reported and
left out, and the others are packed all the same. An entry that the archive does not take ends packing. -/

namespace Relink

/-- Counts over files. -/
structure Tally where
  /-- The files given. -/
  files : Nat
  /-- The files that could not be read. -/
  skipped : Nat
  /-- The records made. -/
  changes : Nat
  /-- The records that only warn. -/
  warnings : Nat
  /-- The files whose text changed. -/
  modified : Nat
  deriving DecidableEq, Repr

namespace Tally

/-- The counts over no file. -/
def zero : Tally := ⟨0, 0, 0, 0, 0⟩

/-- The counts over two lists of files. -/
def add (a b : Tally) : Tally :=
  ⟨a.files + b.files, a.skipped + b.skipped, a.changes + b.changes, a.warnings + b.warnings,
    a.modified + b.modified⟩

end Tally

/-- The counts over a run's files and the names that stay ambiguous. -/
structure Summary where
  tally : Tally
  ambiguous : List Text
  deriving DecidableEq, Repr

/-- What packing files yields. -/
structure Packing where
  tally : Tally
  /-- The entries for the archive. -/
  entries : Archive
  /-- The lines printed. -/
  lines : List Text
  /-- The lines printed as warnings. -/
  complaints : List Text
  deriving DecidableEq, Repr

/-- What packing files into an archive leaves behind. -/
structure Packed where
  /-- The archive and the counts, if the archive took all entries. -/
  outcome : Except Rejection (Archive × Summary)
  /-- The lines printed. -/
  lines : List Text
  /-- The lines printed as warnings. -/
  complaints : List Text

namespace Packed

/-- What packing one file more, in front of others, leaves behind. -/
def after (packing : Packing) (packed : Packed) : Packed :=
  ⟨packed.outcome.map fun (archive, summary) =>
      (archive, { summary with tally := packing.tally.add summary.tally }),
    packing.lines ++ packed.lines, packing.complaints ++ packed.complaints⟩

end Packed

namespace Packing

/-- What a file that cannot be read yields. -/
def ofFailure (file : ProjectFile) (message : Text) : Packing :=
  ⟨⟨1, 1, 0, 0, 0⟩, [], [],
    ["WARN: could not read ".toList ++ Utf8.decodeLossy file.path ++ ": ".toList ++ message]⟩

/-- The lines that tell the changes in a file. -/
def changeLines (file : ProjectFile) (changes : List Change) : List Text :=
  if changes.isEmpty then []
  else ("-- ".toList ++ file.relative) :: changes.map fun change => "   ".toList ++ change.display

/-- The entry of a file that was repaired. -/
def entry (file : ProjectFile) (result : Repaired) : Entry := ⟨file.relative, result.text⟩

/-- What a file with a text yields that was repaired with this result; the changes are printed only when
    `verbose`. -/
def ofRepaired (verbose : Bool) (file : ProjectFile) (text : Text) (result : Repaired) : Packing :=
  ⟨⟨1, 0, result.changes.length, (result.changes.filter Change.isWarning).length,
      if result.isModified text then 1 else 0⟩,
    [entry file result],
    if verbose then changeLines file result.changes else [],
    []⟩

/-- Packs files into an archive that may have entries already. Each file was read with the result beside
    it. -/
def into (archiver : Archiver) (index : Index) (verbose : Bool) (archive : Archive) :
    List (ProjectFile × Except Text Text) → Packed
  | [] => ⟨.ok (archive, ⟨.zero, index.ambiguousNames⟩), [], []⟩
  | (file, .error message) :: reads =>
    (into archiver index verbose archive reads).after (ofFailure file message)
  | (file, .ok text) :: reads =>
    let result := index.repair text
    let packing := ofRepaired verbose file text result
    match archiver.add archive (entry file result) with
    | .error rejection => ⟨.error rejection, packing.lines, packing.complaints⟩
    | .ok archive => (into archiver index verbose archive reads).after packing

end Packing

end Relink

import Relink.Text.Utf8

/-! # Archives

An archive holds entries in the order in which they were added. Names need not differ. The library that makes
archive files of them may refuse an entry, or fail to make the file; why, it says in its own words. -/

namespace Relink

/-- A named text in an archive. -/
structure Entry where
  name : Text
  content : Text
  deriving DecidableEq, Repr

/-- Entries in the order in which they were added. -/
abbrev Archive := List Entry

/-- Why an archive cannot be made, in the words of the library. -/
structure ArchiveError where
  message : Text
  /-- The words for what caused it, for what caused that, and so on. -/
  causes : List Text
  deriving DecidableEq, Repr

/-- An entry that an archive does not take, and why. -/
structure Rejection where
  name : Text
  error : ArchiveError
  deriving DecidableEq, Repr

/-- A library for archive files. -/
structure Archiver where
  /-- Why an entry cannot be added to an archive. -/
  refuses? : Archive → Entry → Option ArchiveError
  /-- The file of an archive. -/
  finish : Archive → Except ArchiveError Bytes
  /-- The archive that a file holds. -/
  open? : Bytes → Option Archive

namespace Archiver

/-- Adds an entry to an archive. -/
def add (archiver : Archiver) (archive : Archive) (entry : Entry) : Except Rejection Archive :=
  match archiver.refuses? archive entry with
  | some error => .error ⟨entry.name, error⟩
  | none => .ok (archive ++ [entry])

end Archiver

end Relink

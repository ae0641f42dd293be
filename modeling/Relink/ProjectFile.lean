import Relink.Path
import Relink.Resource

/-! # Project files

A file of a project has a path with an extension, below the project's root. Its relative path shows
the components below the root with slashes between them; bytes that are no text show as replacement
characters. -/

namespace Relink

/-- A file below a project's root. -/
structure ProjectFile where
  path : Bytes
  relative : Text
  extension : Text
  deriving DecidableEq, Repr

namespace ProjectFile

/-- Components as a text with slashes between them. -/
def display (components : List Path.Component) : Text :=
  joinWith ['/'] (components.map fun c => Utf8.decodeLossy c.written)

/-- The project file at `path`, when that has an extension and lies below `root`. -/
def ofPath? (root path : Bytes) : Option ProjectFile := do
  let components ← Path.below? root path
  let extension ← Path.extension? path
  return ⟨path, display components, Utf8.decodeLossy extension⟩

theorem ofPath?_eq_some_iff {root path : Bytes} {file : ProjectFile} : ofPath? root path = some file ↔
    ∃ components extension, Path.below? root path = some components ∧ Path.extension? path = some extension ∧
      file = ⟨path, display components, Utf8.decodeLossy extension⟩ := by
  simp only [ofPath?, Option.bind_eq_bind, Option.bind_eq_some_iff, Option.pure_def, Option.some.injEq]
  constructor
  · rintro ⟨components, hcomponents, extension, hextension, rfl⟩
    exact ⟨components, extension, hcomponents, hextension, rfl⟩
  · rintro ⟨components, extension, hcomponents, hextension, rfl⟩
    exact ⟨components, hcomponents, extension, hextension, rfl⟩

/-- The resource path of a file. -/
def canonical (file : ProjectFile) : Text := Resource.scheme ++ file.relative

/-- The last name of a file's relative path. -/
def basename (file : ProjectFile) : Text := Resource.basename file.relative

/-- Whether the file is repaired and packed. -/
def isEditable (file : ProjectFile) : Bool := Resource.editable.contains file.extension

/-- Whether a reference can lead to the file. -/
def isIndexable (file : ProjectFile) : Bool := Resource.indexable.contains file.extension

end ProjectFile

end Relink

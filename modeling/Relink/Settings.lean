import Relink.Text.Utf8
import Relink.Toml.Document

/-! # Settings

The settings of a run: defaults, overruled by a configuration file. A file that cannot be read or in
which a setting has the wrong type does not count at all; names that are no settings are passed over. -/

namespace Relink

/-- The settings of a run. -/
structure Settings where
  /-- The project's root. -/
  path : Bytes
  /-- Where the archive is written. -/
  output : Bytes
  /-- Globs for what is left out. -/
  ignorePatterns : List Text
  /-- Whether ignore files count and hidden files are left out. -/
  respectGitignore : Bool
  /-- Whether every change is printed. -/
  verbose : Bool
  /-- How many ambiguous names are listed. -/
  maxExamples : Nat
  deriving DecidableEq, Repr

namespace Settings

/-- The settings without a configuration file. -/
def default : Settings :=
  ⟨Utf8.encode ".".toList, Utf8.encode "voxeltools_spellbox_fixed.zip".toList, [".git".toList], false, false,
    10⟩

/-- The name of the configuration file. -/
def fileName : Text := "resfix.toml".toList

/-- A setting that is a text. -/
def textOf? : Toml.Item → Option Text
  | .value (.string text) => some text
  | _ => none

/-- A setting that is a path. -/
def pathOf? (item : Toml.Item) : Option Bytes := (textOf? item).map Utf8.encode

/-- A setting that is on or off. -/
def switchOf? : Toml.Item → Option Bool
  | .value (.boolean b) => some b
  | _ => none

/-- A setting that is a count. -/
def countOf? : Toml.Item → Option Nat
  | .value (.integer n) => if n < 0 then none else some n.toNat
  | _ => none

/-- A setting that is a list of texts. -/
def textsOf? : Toml.Item → Option (List Text)
  | .value (.array values) => values.mapM fun value => textOf? (.value value)
  | _ => none

/-- The setting of a name, or its default when the file does not have the name. -/
def get? {α : Type} (items : Toml.Items) (name : String) (default : α) (read? : Toml.Item → Option α) :
    Option α :=
  match items.find? name.toList with
  | none => some default
  | some item => read? item

/-- The settings in a configuration file. -/
def ofItems? (items : Toml.Items) : Option Settings := do
  return ⟨← get? items "path" default.path pathOf?,
    ← get? items "output" default.output pathOf?,
    ← get? items "ignore_patterns" default.ignorePatterns textsOf?,
    ← get? items "respect_gitignore" default.respectGitignore switchOf?,
    ← get? items "verbose" default.verbose switchOf?,
    ← get? items "max_examples" default.maxExamples countOf?⟩

/-- The settings in the content of a configuration file. -/
def ofContent? (content : Bytes) : Option Settings := do
  ofItems? (← Toml.document? (← Utf8.decode? content))

end Settings

end Relink

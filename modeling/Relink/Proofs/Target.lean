import Relink.Proofs.Decoding
import Relink.Proofs.Layout.Repair
import Relink.Proofs.Resolution
import Relink.ProjectFile

/-! # Files as targets

A file below the root has an extension, so its relative path has a dot and is neither empty nor made of
slashes. That is why a name which leads to one file is the last name of that file, and why the resource path
of a file can be written between quotes when its relative path has none. -/

namespace Relink
open Reference

namespace Resource

/-- The scheme does not add to the last name of a path. -/
theorem basename_scheme_append {path : Text} (h : ∃ c ∈ path, c ≠ '/') : basename (scheme ++ path) = basename path := by
  obtain ⟨c, hmem, hc⟩ := h
  have hne : path.reverse.dropWhile (· = '/') ≠ [] := fun hnil => by
    have hall := List.dropWhile_eq_nil_iff.mp hnil c (List.mem_reverse.mpr hmem)
    exact hc (by simpa using hall)
  have hscheme : scheme.reverse = '/' :: "/:ser".toList := by decide
  have htake : ∀ tail : Text, (tail ++ scheme.reverse).takeWhile (· ≠ '/') = tail.takeWhile (· ≠ '/') := fun tail => by
    induction tail with
    | nil => rw [hscheme]; rfl
    | cons d tail ih =>
      by_cases hd : d = '/'
      · simp [hd]
      · simpa [hd] using ih
  rw [basename, basename, List.reverse_append, List.dropWhile_append, if_neg (by simpa using hne), htake]

end Resource

namespace ProjectFile

/-- A file strictly below the root. -/
def IsBelow (root : Bytes) (file : ProjectFile) : Prop :=
  ofPath? root file.path = some file ∧ Path.below? root file.path ≠ some []

instance (root : Bytes) (file : ProjectFile) : Decidable (file.IsBelow root) := inferInstanceAs (Decidable (_ ∧ _))

theorem mem_joinWith {α : Type} {separator piece : List α} {pieces : List (List α)} (h : piece ∈ pieces) {a : α}
    (ha : a ∈ piece) : a ∈ joinWith separator pieces := by
  induction pieces with
  | nil => cases h
  | cons first pieces ih =>
    cases pieces with
    | nil => exact List.mem_singleton.mp h ▸ ha
    | cons second pieces =>
      have hjoin : joinWith separator (first :: second :: pieces) =
          first ++ separator ++ joinWith separator (second :: pieces) := rfl
      rw [hjoin, List.mem_append, List.mem_append]
      rcases List.mem_cons.mp h with rfl | h
      · exact Or.inl (Or.inl ha)
      · exact Or.inr (ih h)

theorem fileName?_eq_some_iff {path name : Bytes} :
    Path.fileName? path = some name ↔ (Path.components path).getLast? = some (.name name) := by
  rw [Path.fileName?]
  split
  · rename_i bytes hlast
    simp [hlast]
  · rename_i hother
    simpa using fun hlast => hother name hlast

/-- The last component below the root is the file's name, and it has the file's extension. -/
theorem exists_name {root : Bytes} {file : ProjectFile} (h : file.IsBelow root) : ∃ folders name extension,
    file.relative = display (folders ++ [.name name]) ∧ Path.Component.name name ∈ Path.components file.path ∧
      Path.nameExtension? name = some extension ∧ file.extension = Utf8.decodeLossy extension := by
  obtain ⟨hfile, hbelow⟩ := h
  obtain ⟨components, extension, hcomponents, hextension, hfile⟩ := ofPath?_eq_some_iff.mp hfile
  have hpath := after?_eq_some_iff.mp hcomponents
  obtain ⟨name, hname, hdot⟩ := Option.bind_eq_some_iff.mp hextension
  rw [fileName?_eq_some_iff] at hname
  have hne : components ≠ [] := fun hnil => hbelow (hcomponents.trans (congrArg some hnil))
  have hlast : components.getLast? = some (.name name) := by
    rw [hpath, List.getLast?_append, List.getLast?_eq_some_getLast hne, Option.some_or] at hname
    rw [List.getLast?_eq_some_getLast hne, hname]
  obtain ⟨folders, hfolders⟩ := List.getLast?_eq_some_iff.mp hlast
  have hmem : Path.Component.name name ∈ Path.components file.path :=
    hpath ▸ List.mem_append_right _ (List.mem_of_getLast? hlast)
  exact ⟨folders, name, extension, by rw [hfile, hfolders], hmem, hdot, by rw [hfile]⟩

theorem dot_mem_of_nameExtension? {name extension : Bytes} (h : Path.nameExtension? name = some extension) :
    Path.dot ∈ name := by
  rw [Path.nameExtension?] at h
  split at h
  · rename_i hmem
    exact List.mem_of_mem_drop hmem
  · cases h

theorem dot_mem_relative {root : Bytes} {file : ProjectFile} (h : file.IsBelow root) : '.' ∈ file.relative := by
  obtain ⟨folders, name, extension, hrelative, -, hextension, -⟩ := exists_name h
  have hmem : Path.Component.name name ∈ folders ++ [.name name] := List.mem_append_right _ List.mem_cons_self
  rw [hrelative]
  exact mem_joinWith (List.mem_map_of_mem hmem)
    (Utf8.mem_decodeLossy (b := Path.dot) (by decide) (dot_mem_of_nameExtension? hextension))

theorem basename_canonical {root : Bytes} {file : ProjectFile} (h : file.IsBelow root) :
    Resource.basename file.canonical = file.basename :=
  Resource.basename_scheme_append ⟨'.', dot_mem_relative h, by decide⟩

theorem writable_canonical {root : Bytes} {file : ProjectFile} (h : file.IsBelow root)
    (hquoteFree : QuoteFree file.relative) : (Reference.extResource file.canonical).Writable :=
  ⟨file.relative, rfl, hquoteFree, List.ne_nil_of_mem (dot_mem_relative h)⟩

/-- A project in `/p` with a script of one name and two of another. -/
def sample : List ProjectFile :=
  [⟨Utf8.encode "/p/A/P.gd".toList, "A/P.gd".toList, "gd".toList⟩,
   ⟨Utf8.encode "/p/A/Q.gd".toList, "A/Q.gd".toList, "gd".toList⟩,
   ⟨Utf8.encode "/p/B/Q.gd".toList, "B/Q.gd".toList, "gd".toList⟩]

theorem isBelow_of_mem_sample :
    ∀ file ∈ sample, file.IsBelow (Utf8.encode "/p".toList) ∧ QuoteFree file.relative := by
  decide

end ProjectFile

namespace Index
variable {files : List ProjectFile} {name target : Text}

theorem exists_of_resolve (h : (ofFiles files).resolve name = .unique target) :
    ∃ file ∈ files, file.isIndexable = true ∧ file.canonical = target ∧ Resource.basename target = name := by
  rw [ofFiles, resolve_eq_ofRanked, Resolution.ofRanked_eq_unique_iff (pairwise_ranked _ _)] at h
  have hmem := (Resource.mem_foremost_iff.mp (h ▸ List.mem_singleton_self target)).1
  have hcandidate := (ranked_perm _ _).mem_iff.mp hmem
  simp only [candidates, List.mem_filter, List.mem_map, decide_eq_true_eq] at hcandidate
  obtain ⟨⟨file, ⟨hfile, hindexable⟩, hcanonical⟩, hname⟩ := hcandidate
  exact ⟨file, hfile, hindexable, hcanonical, hname⟩

theorem sound_ofFiles {root : Bytes} (h : ∀ file ∈ files, file.IsBelow root ∧ QuoteFree file.relative) :
    (ofFiles files).Sound where
  name name target hunique := by
    obtain ⟨file, -, -, -, hname⟩ := exists_of_resolve hunique
    exact hname
  writable name target hunique := by
    obtain ⟨file, hfile, -, rfl, -⟩ := exists_of_resolve hunique
    exact file.writable_canonical (h file hfile).1 (h file hfile).2

end Index
end Relink

import Relink.Proofs.Naming

/-! # Ranks as folders

The rank of a resource path is read off its text, where it looks for the name of a folder between two slashes. The
scheme ends in slashes, so the first folder of a file stands between two of them like the others, and the file's own
name has none behind it. So the rank tells whether the file lies in a folder of that very name, at any depth. -/

namespace Relink

section Pieces
variable {α : Type} [DecidableEq α] {separator : α} {word list : List α}

/-- A word occurs between two separators when it is a piece that is neither the first nor the last. -/
theorem infix_separators_iff (h : separator ∉ word) :
    separator :: (word ++ [separator]) <:+: list ↔ word ∈ (splitAt separator list).tail.dropLast := by
  constructor
  · rintro ⟨before, after, rfl⟩
    -- The word is a piece of its own, with the last piece of `before` in front of it and the first of `after` behind.
    have hsplit : splitAt separator (before ++ separator :: (word ++ [separator]) ++ after) =
        splitAt separator before ++ ([word] ++ splitAt separator after) := by
      rw [← splitAt_of_notMem h, ← splitAt_append_separator, ← splitAt_append_separator]
      simp
    rw [hsplit, List.tail_append_of_ne_nil (splitAt_ne_nil _ _), List.dropLast_append_of_ne_nil (by simp),
      List.dropLast_append_of_ne_nil (splitAt_ne_nil _ _)]
    simp
  · intro hmem
    obtain ⟨first, rest, hsplit⟩ := List.exists_cons_of_ne_nil (splitAt_ne_nil separator list)
    rw [hsplit, List.tail_cons] at hmem
    obtain ⟨before, after, hmiddle⟩ := List.append_of_mem hmem
    have hne : rest ≠ [] := by
      rintro rfl
      cases hmem
    obtain ⟨last, hrest⟩ : ∃ last, rest = before ++ word :: after ++ [last] :=
      ⟨rest.getLast hne, by rw [← hmiddle, List.dropLast_concat_getLast]⟩
    have hpieces : splitAt separator list = (first :: before) ++ ([word] ++ (after ++ [last])) := by
      rw [hsplit, hrest]
      simp
    rw [← joinWith_splitAt separator list, hpieces, joinWith_append (List.cons_ne_nil _ _) (by simp),
      joinWith_append (List.cons_ne_nil _ _) (by simp)]
    exact ⟨joinWith [separator] (first :: before), joinWith [separator] (after ++ [last]), by simp [joinWith]⟩

end Pieces

namespace Path
variable {components : List Component} {component : Component} {word : Text}

/-- A component that shows a name of ASCII is that name. -/
theorem shown_eq_iff (h : component.IsPlain) (hword : IsPlain (Utf8.encode word)) (hascii : Utf8.IsAscii word) :
    component.shown = word ↔ component = .name (Utf8.encode word) := by
  constructor
  · rintro rfl
    exact written_inj h hword (Utf8.eq_encode_of_decodeLossy hascii)
  · rintro rfl
    exact Utf8.decodeLossy_encode word

/-- The parts of a relative path but the last are what the components but the last show. -/
theorem mem_dropLast_splitAt_display (h : Below components) (hne : word ≠ []) (hslash : '/' ∉ word) :
    word ∈ (splitAt '/' (ProjectFile.display components)).dropLast ↔ word ∈ components.dropLast.map Component.shown := by
  rcases h.cases with hroot | ⟨rest, rfl, hrest, hroot, hplain⟩
  · by_cases hnil : components = []
    · subst hnil
      rfl
    · rw [splitAt_display h.plain hroot hnil, List.map_dropLast]
  · have hdisplay := splitAt_display hplain hroot hrest
    obtain ⟨component, rest, rfl⟩ := List.exists_cons_of_ne_nil hrest
    have hword : word ≠ Component.root.shown := fun he => hslash (he ▸ by decide)
    rw [display_root hrest, splitAt, if_pos rfl, splitAt, if_pos rfl, hdisplay, List.map_dropLast]
    simp [hne, hword]

end Path

namespace ProjectFile
open Resource

/-- The folders of a file below the root: the parts of its relative path but the last. -/
def folders (file : ProjectFile) : List Text := (splitAt '/' file.relative).dropLast

theorem infix_canonical_iff (file : ProjectFile) (word : Text) (hne : word ≠ []) (hslash : '/' ∉ word) :
    '/' :: (word ++ ['/']) <:+: file.canonical ↔ word ∈ file.folders := by
  have hsplit : splitAt '/' file.canonical = "res:".toList :: [] :: splitAt '/' file.relative := rfl
  obtain ⟨first, rest, hrelative⟩ := List.exists_cons_of_ne_nil (splitAt_ne_nil '/' file.relative)
  rw [infix_separators_iff hslash, hsplit, folders, hrelative, List.tail_cons, List.dropLast_cons_cons, List.mem_cons]
  exact or_iff_right hne

theorem rank_eq (file : ProjectFile) : rank file.canonical =
    if "Scripts".toList ∈ file.folders then 0 else if "VoxelToolFiles".toList ∈ file.folders then 1 else 2 := by
  have hscripts : Text.contains "/Scripts/".toList file.canonical = true ↔ "Scripts".toList ∈ file.folders :=
    Text.contains_iff.trans (infix_canonical_iff file "Scripts".toList (by decide) (by decide))
  have htools : Text.contains "/VoxelToolFiles/".toList file.canonical = true ↔ "VoxelToolFiles".toList ∈ file.folders :=
    Text.contains_iff.trans (infix_canonical_iff file "VoxelToolFiles".toList (by decide) (by decide))
  simp only [rank, hscripts, htools]

theorem rank_eq_zero_iff (file : ProjectFile) : rank file.canonical = 0 ↔ "Scripts".toList ∈ file.folders := by
  rw [rank_eq]
  split_ifs with hscripts htools
  · exact iff_of_true rfl hscripts
  · exact iff_of_false (by decide) hscripts
  · exact iff_of_false (by decide) hscripts

theorem rank_eq_one_iff (file : ProjectFile) :
    rank file.canonical = 1 ↔ "Scripts".toList ∉ file.folders ∧ "VoxelToolFiles".toList ∈ file.folders := by
  rw [rank_eq]
  split_ifs with hscripts htools
  · exact iff_of_false (by decide) fun h => h.1 hscripts
  · exact iff_of_true rfl ⟨hscripts, htools⟩
  · exact iff_of_false (by decide) fun h => htools h.2

theorem rank_eq_two_iff (file : ProjectFile) :
    rank file.canonical = 2 ↔ "Scripts".toList ∉ file.folders ∧ "VoxelToolFiles".toList ∉ file.folders := by
  rw [rank_eq]
  split_ifs with hscripts htools
  · exact iff_of_false (by decide) fun h => h.1 hscripts
  · exact iff_of_false (by decide) fun h => h.2 htools
  · exact iff_of_true rfl ⟨hscripts, htools⟩

/-- A folder of ASCII that the relative path of a file has is one that the file lies in. -/
theorem mem_folders_iff {root path : Bytes} {file : ProjectFile} (h : ofPath? root path = some file)
    {components : List Path.Component} (hcomponents : Path.below? root path = some components) (word : Text)
    (hword : Path.IsPlain (Utf8.encode word)) (hascii : Utf8.IsAscii word) (hslash : '/' ∉ word) :
    word ∈ file.folders ↔ .name (Utf8.encode word) ∈ components.dropLast := by
  obtain ⟨components', hcomponents', hbelow, hcanonical⟩ := exists_of_ofPath? h
  cases hcomponents.symm.trans hcomponents'
  have hrelative : file.relative = display components := List.append_cancel_left hcanonical
  have hne : word ≠ [] := by
    rintro rfl
    exact hword.1 rfl
  have hplain : ∀ component ∈ components.dropLast, component.IsPlain :=
    fun component hmem => hbelow.plain component (List.dropLast_subset _ hmem)
  rw [folders, hrelative, Path.mem_dropLast_splitAt_display hbelow hne hslash, List.mem_map]
  constructor
  · rintro ⟨component, hmem, hshown⟩
    rwa [← (Path.shown_eq_iff (hplain component hmem) hword hascii).mp hshown]
  · intro hmem
    exact ⟨_, hmem, Utf8.decodeLossy_encode word⟩

/-- The rank of a file is 0 when it lies in a folder of the name `Scripts`, 1 when it lies in none but in one of the
    name `VoxelToolFiles`, and 2 otherwise. -/
theorem rank_canonical {root path : Bytes} {file : ProjectFile} (h : ofPath? root path = some file) :
    (rank file.canonical = 0 ↔ "Scripts".toList ∈ file.folders) ∧
    (rank file.canonical = 1 ↔ "Scripts".toList ∉ file.folders ∧ "VoxelToolFiles".toList ∈ file.folders) ∧
    (rank file.canonical = 2 ↔ "Scripts".toList ∉ file.folders ∧ "VoxelToolFiles".toList ∉ file.folders) ∧
    ∃ components, Path.below? root path = some components ∧
      ("Scripts".toList ∈ file.folders ↔ .name (Utf8.encode "Scripts".toList) ∈ components.dropLast) ∧
      ("VoxelToolFiles".toList ∈ file.folders ↔ .name (Utf8.encode "VoxelToolFiles".toList) ∈ components.dropLast) := by
  obtain ⟨components, hcomponents, -⟩ := exists_of_ofPath? h
  have hscripts := mem_folders_iff h hcomponents "Scripts".toList (by decide) (by decide) (by decide)
  have htools := mem_folders_iff h hcomponents "VoxelToolFiles".toList (by decide) (by decide) (by decide)
  exact ⟨rank_eq_zero_iff file, rank_eq_one_iff file, rank_eq_two_iff file, components, hcomponents, hscripts, htools⟩

theorem rank_canonical_sample :
    ofPath? (Utf8.encode "/p".toList) (Utf8.encode "/p/MyScripts/VoxelToolFiles/Scripts.gd".toList) =
      some ⟨Utf8.encode "/p/MyScripts/VoxelToolFiles/Scripts.gd".toList,
        "MyScripts/VoxelToolFiles/Scripts.gd".toList, "gd".toList⟩ ∧
    rank "res://MyScripts/VoxelToolFiles/Scripts.gd".toList = 1 := by
  have hfile : ofPath? (Utf8.encode "/p".toList) (Utf8.encode "/p/MyScripts/VoxelToolFiles/Scripts.gd".toList) =
      some ⟨Utf8.encode "/p/MyScripts/VoxelToolFiles/Scripts.gd".toList,
        "MyScripts/VoxelToolFiles/Scripts.gd".toList, "gd".toList⟩ := by decide
  exact ⟨hfile, (rank_canonical hfile).2.1.mpr (by decide +kernel)⟩

end ProjectFile
end Relink

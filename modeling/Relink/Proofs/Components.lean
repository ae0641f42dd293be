import Mathlib.Logic.Relation
import Relink.Proofs.Naming

/-! # The spellings of a path

Two paths have the same components when one becomes the other by repeating slashes, by putting in dots that stand for
the folder reached, and by adding slashes at the end, or by taking such away again. So a project file does not depend on
how its path and its root are spelled. What its relative path shows are the components below the root, one between two
slashes, and put behind the root they lead to the file again. -/

namespace Relink

/-! ### Spellings -/

namespace Path
variable {root path other folder part : Bytes} {components : List Component} {component : Component}

/-- A path and a longer spelling of it. -/
inductive Respelled : Bytes → Bytes → Prop
  | repeated (a b : Bytes) : Respelled (a ++ slash :: b) (a ++ slash :: slash :: b)
  | dotted (a b : Bytes) : Respelled (a ++ slash :: b) (a ++ slash :: dot :: slash :: b)
  | ended {a : Bytes} (ha : a ≠ []) : Respelled a (a ++ [slash])

theorem components_congr {a b c : Bytes} (h : inner b = inner c) :
    Path.components (a ++ slash :: b) = Path.components (a ++ slash :: c) := by
  by_cases ha : a = []
  · rw [ha, List.nil_append, List.nil_append, components_slash, components_slash, h]
  · rw [components_append_slash ha, components_append_slash ha, h]

theorem Respelled.components_eq (h : Respelled path other) : Path.components path = Path.components other := by
  cases h with
  | repeated a b => exact components_congr (by simp [inner, splitAt, Component.ofPart?])
  | dotted a b =>
    have hsplit : splitAt slash (dot :: slash :: b) = [dot] :: splitAt slash b := by simp [splitAt, slash, dot]
    exact components_congr (by simp [inner, hsplit, Component.ofPart?])
  | ended ha =>
    rw [components_append_slash ha]
    simp [inner, splitAt, Component.ofPart?]

theorem components_of_eqvGen (h : Relation.EqvGen Respelled path other) :
    Path.components path = Path.components other := by
  induction h with
  | rel _ _ hstep => exact hstep.components_eq
  | refl => rfl
  | symm _ _ _ ih => exact ih.symm
  | trans _ _ _ _ _ ih₁ ih₂ => exact ih₁.trans ih₂

/-- Components as a path with one slash between neighbours. -/
def spell (components : List Component) : Bytes := joinWith [slash] (components.map Component.written)

theorem spell_cons (component : Component) (components : List Component) :
    spell (component :: components) = component.written ++ behind (components.map Component.written) :=
  joinWith_eq_behind component.written _

theorem behind_cases (parts : List Bytes) : behind parts = [] ∨ ∃ path, behind parts = slash :: path := by
  cases parts with
  | nil => exact Or.inl rfl
  | cons part parts => exact Or.inr ⟨part ++ behind parts, rfl⟩

/-- A part that stands for no component can be left out. -/
theorem eqvGen_skip (hne : folder ≠ []) (hpart : Component.ofPart? part = none) (parts : List Bytes) :
    Relation.EqvGen Respelled (folder ++ behind (part :: parts)) (folder ++ behind parts) := by
  have hskipped : part = [] ∨ part = [dot] := by
    by_contra hnot
    rw [Component.ofPart?, if_neg hnot] at hpart
    split at hpart <;> cases hpart
  have hended : Relation.EqvGen Respelled (folder ++ [slash]) folder := .symm _ _ (.rel _ _ (.ended hne))
  rw [show behind (part :: parts) = slash :: (part ++ behind parts) from rfl]
  rcases behind_cases parts with hbehind | ⟨path, hbehind⟩ <;> rw [hbehind] <;> rcases hskipped with rfl | rfl
  · simpa using hended
  · have hlonger : Respelled (folder ++ [slash, dot]) (folder ++ [slash, dot] ++ [slash]) := .ended (by simp)
    have hshorter : Respelled (folder ++ slash :: []) (folder ++ slash :: dot :: slash :: []) := .dotted folder []
    rw [List.append_nil folder, List.append_nil]
    refine .trans _ _ _ (.rel _ _ hlonger) (.trans _ _ _ ?_ hended)
    rw [List.append_assoc]
    exact .symm _ _ (.rel _ _ hshorter)
  · exact .symm _ _ (.rel _ _ (.repeated folder path))
  · exact .symm _ _ (.rel _ _ (.dotted folder path))

theorem eqvGen_behind (hne : folder ≠ []) (parts : List Bytes) :
    Relation.EqvGen Respelled (folder ++ behind parts)
      (folder ++ behind ((parts.filterMap Component.ofPart?).map Component.written)) := by
  induction parts generalizing folder with
  | nil => exact .refl _
  | cons part parts ih =>
    cases hpart : Component.ofPart? part with
    | none =>
      rw [List.filterMap_cons_none hpart]
      exact .trans _ _ _ (eqvGen_skip hne hpart parts) (ih hne)
    | some component =>
      rw [List.filterMap_cons_some hpart, List.map_cons, written_of_ofPart? hpart]
      have hfolder : folder ++ slash :: part ≠ [] := by simp
      have hrest := ih hfolder
      simpa [behind] using hrest

theorem eqvGen_spell (path : Bytes) : Relation.EqvGen Respelled path (spell (Path.components path)) := by
  rcases components_cases path with rfl |
    ⟨first, parts, hcomponents, -, -, ⟨rfl, hne, rfl⟩ | ⟨-, hne, -, hpath⟩⟩
  · exact .refl _
  · -- The first slash is repeated, so that one of the two stands for the root.
    obtain ⟨part, parts, rfl⟩ := List.exists_cons_of_ne_nil hne
    have hrest := eqvGen_behind (List.cons_ne_nil slash []) (part :: parts)
    rw [hcomponents, spell_cons]
    exact .trans _ _ _ (.rel _ _ (.repeated [] (part ++ behind parts))) hrest
  · rw [hcomponents, spell_cons]
    nth_rewrite 1 [hpath]
    exact eqvGen_behind hne parts

/-- Paths have the same components when they are spellings of one path, and only then. -/
theorem components_eq_iff : Path.components path = Path.components other ↔ Relation.EqvGen Respelled path other := by
  refine ⟨fun h => ?_, components_of_eqvGen⟩
  refine .trans _ _ _ (eqvGen_spell path) ?_
  rw [h]
  exact .symm _ _ (eqvGen_spell other)

/-! ### Components put behind a root -/

theorem components_ne_nil (h : path ≠ []) : Path.components path ≠ [] := by
  rcases components_cases path with rfl | ⟨first, parts, hcomponents, -⟩
  · exact absurd rfl h
  · simp [hcomponents]

theorem root_mem_iff : .root ∈ Path.components path ↔ path.head? = some slash := by
  rcases components_cases path with rfl |
    ⟨first, parts, hcomponents, -, -, ⟨rfl, hne, rfl⟩ | ⟨hroot, hne, hslash, rfl⟩⟩
  · simp [components_nil]
  · obtain ⟨part, parts, rfl⟩ := List.exists_cons_of_ne_nil hne
    rw [hcomponents]
    simp [behind]
  · obtain ⟨b, written, hwritten⟩ := List.exists_cons_of_ne_nil hne
    have hb : b ≠ slash := by
      rintro rfl
      simp [hwritten] at hslash
    rw [hcomponents, hwritten]
    simp [hb, hroot.symm, ofPart?_ne_root]

theorem of_mem_tail (h : component ∈ (Path.components path).tail) :
    Component.ofPart? component.written = some component ∧ slash ∉ component.written := by
  rcases components_cases path with rfl | ⟨first, parts, hcomponents, -, hparts, -⟩
  · cases h
  · rw [hcomponents, List.tail_cons, List.mem_filterMap] at h
    obtain ⟨part, hpart, hcomponent⟩ := h
    rw [written_of_ofPart? hcomponent]
    exact ⟨hcomponent, hparts part hpart⟩

theorem inner_spell (h : ∀ c ∈ components, Component.ofPart? c.written = some c ∧ slash ∉ c.written) :
    inner (spell components) = components := by
  by_cases hnil : components = []
  · simp [hnil, spell, joinWith, inner, splitAt, Component.ofPart?]
  · have hsplit : splitAt slash (spell components) = components.map Component.written := by
      apply splitAt_joinWith
      · simpa using hnil
      · simpa using fun c hc => (h c hc).2
    have hread : components.filterMap (Component.ofPart? ∘ Component.written) = components.filterMap some :=
      List.filterMap_congr fun c hc => (h c hc).1
    rw [inner, hsplit, List.filterMap_map, hread, List.filterMap_some]

theorem head?_spell_ne (h : ∀ c ∈ components, Component.ofPart? c.written = some c ∧ slash ∉ c.written) :
    (spell components).head? ≠ some slash := by
  cases components with
  | nil => simp [spell, joinWith]
  | cons component components =>
    obtain ⟨hpart, hslash⟩ := h component List.mem_cons_self
    have hne : component.written ≠ [] := by
      intro hnil
      simp [hnil, Component.ofPart?] at hpart
    intro hhead
    rw [spell, List.map_cons, head?_joinWith hne] at hhead
    exact hslash (List.mem_of_mem_head? hhead)

theorem root_mem_below_iff (h : Path.components path = Path.components root ++ components) :
    .root ∈ components ↔ root = [] ∧ path.head? = some slash := by
  constructor
  · intro hmem
    have hroot : root = [] := by
      by_contra hne
      apply root_notMem_tail path
      rw [h, List.tail_append_of_ne_nil (components_ne_nil hne)]
      exact List.mem_append_right _ hmem
    exact ⟨hroot, root_mem_iff.mp (h ▸ List.mem_append_right _ hmem)⟩
  · rintro ⟨rfl, hhead⟩
    rw [components_nil, List.nil_append] at h
    exact h ▸ root_mem_iff.mpr hhead

/-- What a path has below a root leads to the path again when it is put behind the root. -/
theorem components_join_spell (h : Path.components path = Path.components root ++ components) :
    Path.components (join root (spell components)) = Path.components path := by
  by_cases hroot : root = []
  · subst hroot
    rw [components_nil, List.nil_append] at h
    have hjoin : join [] (spell components) = spell components := by simp [join]
    rw [hjoin, ← h]
    exact (components_of_eqvGen (eqvGen_spell path)).symm
  · have hbelow : ∀ c ∈ components, Component.ofPart? c.written = some c ∧ slash ∉ c.written := by
      intro c hc
      have hmem : c ∈ (Path.components path).tail := by
        rw [h, List.tail_append_of_ne_nil (components_ne_nil hroot)]
        exact List.mem_append_right _ hc
      exact of_mem_tail hmem
    rw [components_join_of_ne hroot (head?_spell_ne hbelow), inner_spell hbelow, h]

end Path

/-! ### Project files -/

namespace ProjectFile
variable {root path root' path' : Bytes} {file : ProjectFile} {components : List Path.Component}

theorem isSome_nameExtension? (name : Bytes) : (Path.nameExtension? name).isSome ↔ Path.dot ∈ name.drop 1 := by
  rw [Path.nameExtension?]
  split
  · rename_i hdot
    exact iff_of_true rfl hdot
  · rename_i hdot
    exact iff_of_false Bool.false_ne_true hdot

theorem isSome_extension? (path : Bytes) : (Path.extension? path).isSome ↔
    ∃ name, (Path.components path).getLast? = some (.name name) ∧ Path.dot ∈ name.drop 1 := by
  rw [Path.extension?, Path.fileName?, Option.isSome_bind]
  split
  · rename_i name hname
    simp [hname, isSome_nameExtension?]
  · rename_i hother
    simp only [Option.any_none, Bool.false_eq_true, false_iff, not_exists, not_and]
    exact fun name hname => absurd hname (hother name)

theorem isSome_ofPath? (root path : Bytes) : (ofPath? root path).isSome ↔
    Path.components root <+: Path.components path ∧
      ∃ name, (Path.components path).getLast? = some (.name name) ∧ Path.dot ∈ name.drop 1 := by
  have hbelow : (Path.below? root path).isSome ↔ Path.components root <+: Path.components path := by
    rw [Option.isSome_iff_exists]
    exact exists_congr fun components => after?_eq_some_iff.trans eq_comm
  rw [← hbelow, ← isSome_extension?, ofPath?]
  cases Path.below? root path <;> cases Path.extension? path <;> simp

theorem ofPath?_congr (hroot : Path.components root = Path.components root')
    (hpath : Path.components path = Path.components path') :
    (ofPath? root path).map (fun file => (file.relative, file.extension, file.canonical)) =
      (ofPath? root' path').map fun file => (file.relative, file.extension, file.canonical) := by
  have hbelow : Path.below? root path = Path.below? root' path' := by
    rw [Path.below?, Path.below?, hroot, hpath]
  have hextension : Path.extension? path = Path.extension? path' := by
    rw [Path.extension?, Path.extension?, Path.fileName?, Path.fileName?, hpath]
  rw [ofPath?, ofPath?, hbelow, hextension]
  cases Path.below? root' path' <;> cases Path.extension? path' <;> rfl

theorem encode_joinWith (texts : List Text) :
    Utf8.encode (joinWith ['/'] texts) = joinWith [Path.slash] (texts.map Utf8.encode) := by
  induction texts with
  | nil => rfl
  | cons text texts ih =>
    cases texts with
    | nil => rfl
    | cons other texts =>
      have hslash : Utf8.encode ['/'] = [Path.slash] := by decide
      rw [joinWith_cons_cons, List.map_cons, List.map_cons, joinWith_cons_cons, ← List.map_cons, ← ih, ← hslash]
      simp [Utf8.encode]

theorem encode_shown (h : ∀ c ∈ components, Utf8.WellFormed c.written) :
    (components.map Path.Component.shown).map Utf8.encode = components.map Path.Component.written := by
  rw [List.map_map]
  exact List.map_congr_left h

theorem encode_display (h : ∀ c ∈ components, Utf8.WellFormed c.written) :
    Utf8.encode (display components) = Path.spell components := by
  rw [Path.spell, ← encode_shown h, ← encode_joinWith]
  rfl

theorem splitAt_display_iff (hbelow : Path.Below components) (hne : components ≠ [])
    (h : ∀ c ∈ components, Utf8.WellFormed c.written) :
    (splitAt '/' (display components)).map Utf8.encode = components.map Path.Component.written ↔
      .root ∉ components := by
  constructor
  · intro hparts hroot
    have hmem : [Path.slash] ∈ (splitAt '/' (display components)).map Utf8.encode := by
      rw [hparts]
      exact List.mem_map_of_mem hroot
    obtain ⟨part, hpart, hslash⟩ := List.mem_map.mp hmem
    have he : part = ['/'] := Utf8.encode_injective hslash
    exact notMem_of_mem_splitAt hpart (by simp [he])
  · intro hroot
    rw [Path.splitAt_display hbelow.plain hroot hne, encode_shown h]

/-- A path is that of a project file when the root's components come first and the last one is a name with a dot behind
    its first byte. Components below the root that are texts are the parts of the relative path, unless one is the root
    itself, and behind the root the relative path leads to the file. The file is the same for all spellings of the root
    and of the path. -/
theorem components_round_trip (root path : Bytes) :
    ((ofPath? root path).isSome ↔ Path.components root <+: Path.components path ∧
      ∃ name, (Path.components path).getLast? = some (.name name) ∧ Path.dot ∈ name.drop 1) ∧
    (∀ file components, ofPath? root path = some file → Path.components path = Path.components root ++ components →
      components ≠ [] → (∀ c ∈ components, Utf8.WellFormed c.written) →
        ((splitAt '/' file.relative).map Utf8.encode = components.map Path.Component.written ↔
          ¬ (root = [] ∧ path.head? = some Path.slash)) ∧
        Path.components (Path.join root (Utf8.encode file.relative)) = Path.components path) ∧
    ∀ root' path', Relation.EqvGen Path.Respelled root root' → Relation.EqvGen Path.Respelled path path' →
      (ofPath? root' path').map (fun file => (file.relative, file.extension, file.canonical)) =
        (ofPath? root path).map fun file => (file.relative, file.extension, file.canonical) := by
  refine ⟨isSome_ofPath? root path, ?_, ?_⟩
  · intro file components hfile hpath hne hlegible
    obtain ⟨components', hcomponents, hbelow, hcanonical⟩ := exists_of_ofPath? hfile
    obtain rfl : components' = components :=
      List.append_cancel_left ((after?_eq_some_iff.mp hcomponents).symm.trans hpath)
    have hrelative : file.relative = display components' := List.append_cancel_left hcanonical
    rw [hrelative, splitAt_display_iff hbelow hne hlegible, Path.root_mem_below_iff hpath, encode_display hlegible]
    exact ⟨Iff.rfl, Path.components_join_spell hpath⟩
  · intro root' path' hroot hpath
    exact ofPath?_congr (Path.components_of_eqvGen hroot).symm (Path.components_of_eqvGen hpath).symm

theorem components_round_trip_sample :
    ofPath? (Utf8.encode "/p".toList) (Utf8.encode "/p/A/b.gd".toList) =
      some ⟨Utf8.encode "/p/A/b.gd".toList, "A/b.gd".toList, "gd".toList⟩ ∧
    (splitAt '/' "A/b.gd".toList).map Utf8.encode = [Utf8.encode "A".toList, Utf8.encode "b.gd".toList] ∧
    Path.components (Path.join (Utf8.encode "/p".toList) (Utf8.encode "A/b.gd".toList)) =
      Path.components (Utf8.encode "/p/A/b.gd".toList) ∧
    (ofPath? (Utf8.encode "/p/".toList) (Utf8.encode "/p/./A/b.gd".toList)).map
      (fun file => (file.relative, file.extension, file.canonical)) =
        some ("A/b.gd".toList, "gd".toList, "res://A/b.gd".toList) := by
  have hfile : ofPath? (Utf8.encode "/p".toList) (Utf8.encode "/p/A/b.gd".toList) =
      some ⟨Utf8.encode "/p/A/b.gd".toList, "A/b.gd".toList, "gd".toList⟩ := by decide
  have hroot : Path.Respelled (Utf8.encode "/p".toList) (Utf8.encode "/p/".toList) := .ended (by decide)
  have hpath : Path.Respelled (Utf8.encode "/p/A/b.gd".toList) (Utf8.encode "/p/./A/b.gd".toList) :=
    .dotted (Utf8.encode "/p".toList) (Utf8.encode "A/b.gd".toList)
  obtain ⟨-, hparts, hspellings⟩ :=
    components_round_trip (Utf8.encode "/p".toList) (Utf8.encode "/p/A/b.gd".toList)
  obtain ⟨hsplit, hjoin⟩ :=
    hparts _ [.name (Utf8.encode "A".toList), .name (Utf8.encode "b.gd".toList)] hfile (by decide) (by decide) (by decide)
  refine ⟨hfile, hsplit.mpr (by decide), hjoin, ?_⟩
  rw [hspellings _ _ (.rel _ _ hroot) (.rel _ _ hpath), hfile]
  rfl

/-- No part of a relative path is a slash, which the root below an empty root is written as. -/
theorem relative_of_empty_root :
    ofPath? [] (Utf8.encode "/a.gd".toList) = some ⟨Utf8.encode "/a.gd".toList, "//a.gd".toList, "gd".toList⟩ ∧
    Path.components (Utf8.encode "/a.gd".toList) = Path.components [] ++ [.root, .name (Utf8.encode "a.gd".toList)] ∧
    (∀ c ∈ [Path.Component.root, .name (Utf8.encode "a.gd".toList)], Utf8.WellFormed c.written) ∧
    (splitAt '/' "//a.gd".toList).map Utf8.encode ≠
      [Path.Component.root, .name (Utf8.encode "a.gd".toList)].map Path.Component.written := by
  decide

end ProjectFile
end Relink

import Relink.Proofs.Counting
import Relink.Proofs.Grouping
import Relink.Proofs.Walking

/-! # The names of files

The resource path of a file shows the components of its path below the root. It tells files apart as far as
their components do when they are shown, and a name that is no text shows replacement characters, as others
do. A walk comes to each file once, so where all names are texts each file has a resource path of its own. -/

namespace Relink

/-! ### What components show -/

namespace Path
variable {root path part : Bytes} {components others rest : List Component} {component other : Component}

/-- Whether a component, when it is a name, stands for itself as a part of a path. -/
def Component.IsPlain : Component → Prop
  | .name bytes => Path.IsPlain bytes
  | _ => True

/-- A component as it is shown. -/
def Component.shown (component : Component) : Text := Utf8.decodeLossy component.written

theorem isPlain_of_ofPart? (hslash : slash ∉ part) (h : Component.ofPart? part = some component) :
    component.IsPlain := by
  cases component with
  | name bytes =>
    obtain ⟨rfl, hempty, hdot, hdots⟩ := ofPart?_eq_some_iff.mp h
    exact ⟨hempty, hdot, hdots, hslash⟩
  | _ => trivial

/-- A path that is not empty starts with the root's slash or with its first component, and what the parts behind
    stand for follows. -/
theorem components_cases (path : Bytes) : path = [] ∨ ∃ first parts,
    Path.components path = first :: parts.filterMap Component.ofPart? ∧ first.IsPlain ∧ (∀ part ∈ parts, slash ∉ part) ∧
      (first = .root ∧ parts ≠ [] ∧ path = behind parts ∨
        first ≠ .root ∧ first.written ≠ [] ∧ slash ∉ first.written ∧ path = first.written ++ behind parts) := by
  obtain ⟨part, parts, hparts⟩ := List.exists_cons_of_ne_nil (splitAt_ne_nil slash path)
  have hpath : path = part ++ behind parts := by
    rw [← joinWith_eq_behind, ← hparts, joinWith_splitAt]
  have hslash : ∀ piece ∈ part :: parts, slash ∉ piece := fun piece hmem => notMem_of_mem_splitAt (hparts ▸ hmem)
  obtain ⟨hpart, hrest⟩ := List.forall_mem_cons.mp hslash
  by_cases hempty : part = []
  · subst hempty
    by_cases hnil : parts = []
    · exact Or.inl (by simp [hpath, hnil, behind])
    · refine Or.inr ⟨.root, parts, ?_, trivial, hrest, Or.inl ⟨rfl, hnil, hpath⟩⟩
      simp [Path.components, hparts, hnil]
  · by_cases hdot : part = [dot]
    · subst hdot
      have hroot : Component.current ≠ .root := by simp
      refine Or.inr ⟨.current, parts, ?_, trivial, hrest, Or.inr ⟨hroot, hempty, hpart, hpath⟩⟩
      simp [Path.components, hparts]
    · obtain ⟨component, hcomponent⟩ : ∃ component, Component.ofPart? part = some component := by
        rw [Component.ofPart?, if_neg (by simp [hempty, hdot])]
        split <;> exact ⟨_, rfl⟩
      have hroot : component ≠ .root := fun he => ofPart?_ne_root part (he ▸ hcomponent)
      refine Or.inr ⟨component, parts, ?_, isPlain_of_ofPart? hpart hcomponent, hrest, Or.inr ⟨hroot, ?_⟩⟩
      · simp [Path.components, hparts, hempty, hdot, hcomponent]
      · rw [written_of_ofPart? hcomponent]
        exact ⟨hempty, hpart, hpath⟩

theorem components_nil : Path.components [] = [] := rfl

theorem isPlain_of_mem_components (h : component ∈ Path.components path) : component.IsPlain := by
  rcases components_cases path with rfl | ⟨first, parts, hcomponents, hfirst, hparts, -⟩
  · cases h
  · rw [hcomponents, List.mem_cons, List.mem_filterMap] at h
    rcases h with rfl | ⟨part, hpart, h⟩
    · exact hfirst
    · exact isPlain_of_ofPart? (hparts part hpart) h

/-- Only the first component of a path can be the root. -/
theorem root_notMem_tail (path : Bytes) : .root ∉ (Path.components path).tail := by
  rcases components_cases path with rfl | ⟨first, parts, hcomponents, -⟩
  · exact List.not_mem_nil
  · rw [hcomponents, List.tail_cons, List.mem_filterMap]
    rintro ⟨part, -, hroot⟩
    exact ofPart?_ne_root part hroot

theorem written_inj (h : component.IsPlain) (hother : other.IsPlain) (he : component.written = other.written) :
    component = other := by
  cases component <;> cases other <;> grind [Component.written, Component.IsPlain, IsPlain, slash, dot]

/-- What a component shows that is not the root is a piece between slashes. -/
theorem shown_piece (h : component.IsPlain) (hroot : component ≠ .root) :
    component.shown ≠ [] ∧ '/' ∉ component.shown := by
  have hwritten : component.written ≠ [] ∧ slash ∉ component.written := by
    cases component with
    | root => exact absurd rfl hroot
    | current => exact ⟨by decide, by decide⟩
    | parent => exact ⟨by decide, by decide⟩
    | name bytes => exact ⟨h.1, h.2.2.2⟩
  refine ⟨Utf8.decodeLossy_ne_nil hwritten.1, fun hmem => ?_⟩
  obtain ⟨b, hb, hslash⟩ := Utf8.exists_of_mem_decodeLossy hmem (by decide) (by decide)
  have he : b = slash := UInt8.toNat_inj.mp hslash
  exact hwritten.2 (he ▸ hb)

/-- Components as they can follow those of a root on the way to a file. -/
structure Below (components : List Component) : Prop where
  plain : ∀ component ∈ components, component.IsPlain
  root : .root ∉ components.tail
  file : components ≠ [.root]

theorem shown_pieces (h : ∀ component ∈ components, component.IsPlain) (hroot : .root ∉ components) :
    ∀ piece ∈ components.map Component.shown, piece ≠ [] ∧ '/' ∉ piece := by
  intro piece hmem
  obtain ⟨component, hcomponent, rfl⟩ := List.mem_map.mp hmem
  exact shown_piece (h component hcomponent) fun he => hroot (he ▸ hcomponent)

theorem splitAt_display (h : ∀ component ∈ components, component.IsPlain) (hroot : .root ∉ components)
    (hne : components ≠ []) : splitAt '/' (ProjectFile.display components) = components.map Component.shown :=
  splitAt_joinWith (mt List.map_eq_nil_iff.mp hne) fun piece hmem => (shown_pieces h hroot piece hmem).2

theorem display_root (h : rest ≠ []) :
    ProjectFile.display (.root :: rest) = '/' :: '/' :: ProjectFile.display rest := by
  obtain ⟨component, rest, rfl⟩ := List.exists_cons_of_ne_nil h
  rfl

theorem Below.cases (h : Below components) : .root ∉ components ∨ ∃ rest, components = .root :: rest ∧ rest ≠ [] ∧
    .root ∉ rest ∧ ∀ component ∈ rest, component.IsPlain := by
  cases components with
  | nil => exact Or.inl List.not_mem_nil
  | cons component rest =>
    by_cases hroot : component = .root
    · subst hroot
      have hplain : ∀ c ∈ rest, c.IsPlain := fun c hmem => h.plain c (List.mem_cons_of_mem _ hmem)
      exact Or.inr ⟨rest, rfl, fun hnil => h.file (hnil ▸ rfl), h.root, hplain⟩
    · refine Or.inl fun hmem => ?_
      rcases List.mem_cons.mp hmem with he | hmem
      · exact hroot he.symm
      · exact h.root hmem

theorem head?_display_ne (h : ∀ component ∈ components, component.IsPlain) (hroot : .root ∉ components) :
    (ProjectFile.display components).head? ≠ some '/' := by
  cases components with
  | nil => exact nofun
  | cons component rest =>
    obtain ⟨hne, hslash⟩ := shown_piece (h component List.mem_cons_self) fun he => hroot (he ▸ List.mem_cons_self)
    have hhead : (ProjectFile.display (component :: rest)).head? = component.shown.head? := head?_joinWith hne _ _
    rw [hhead]
    exact fun he => hslash (List.mem_of_mem_head? he)

/-- What components show can be read off the text that they are displayed as. -/
theorem display_inj (h : Below components) (hother : Below others)
    (hdisplay : ProjectFile.display components = ProjectFile.display others) :
    components.map Component.shown = others.map Component.shown := by
  rcases h.cases with hroot | ⟨rest, rfl, hne, hroot, hplain⟩ <;>
    rcases hother.cases with hroot' | ⟨rest', rfl, hne', hroot', hplain'⟩
  · exact joinWith_inj (shown_pieces h.plain hroot) (shown_pieces hother.plain hroot') hdisplay
  · rw [display_root hne'] at hdisplay
    exact absurd (congrArg List.head? hdisplay) (head?_display_ne h.plain hroot)
  · rw [display_root hne] at hdisplay
    exact absurd (congrArg List.head? hdisplay.symm) (head?_display_ne hother.plain hroot')
  · rw [display_root hne, display_root hne', List.cons.injEq, List.cons.injEq] at hdisplay
    exact congrArg (Component.shown .root :: ·)
      (joinWith_inj (shown_pieces hplain hroot) (shown_pieces hplain' hroot') hdisplay.2.2)

/-- What the components of a path below a root show. -/
def shown? (root path : Bytes) : Option (List Text) := (below? root path).map (·.map Component.shown)

/-- Whether the components of a path below a root are texts. -/
def Legible (root path : Bytes) : Prop :=
  ∀ components ∈ below? root path, ∀ component ∈ components, Utf8.WellFormed component.written

instance (root path : Bytes) : Decidable (Legible root path) :=
  inferInstanceAs (Decidable (∀ components ∈ below? root path, ∀ c ∈ components, Utf8.WellFormed c.written))

/-- Components that are texts can be told from what they show. -/
theorem eq_of_shown {a b : List Component} (h : ∀ c ∈ a, c.IsPlain ∧ Utf8.WellFormed c.written)
    (hother : ∀ c ∈ b, c.IsPlain ∧ Utf8.WellFormed c.written) (hshown : a.map Component.shown = b.map Component.shown) :
    a = b := by
  induction a generalizing b with
  | nil => exact (List.map_eq_nil_iff.mp hshown.symm).symm
  | cons c a ih =>
    cases b with
    | nil => cases hshown
    | cons d b =>
      obtain ⟨hc, ha⟩ := List.forall_mem_cons.mp h
      obtain ⟨hd, hb⟩ := List.forall_mem_cons.mp hother
      rw [List.map_cons, List.map_cons, List.cons.injEq] at hshown
      have hwritten : c.written = d.written := by
        rw [← hc.2, ← hd.2]
        exact congrArg Utf8.encode hshown.1
      rw [written_inj hc.1 hd.1 hwritten, ih ha hb hshown.2]

end Path

/-! ### Resource paths -/

namespace ProjectFile
variable {root path other : Bytes} {file otherFile : ProjectFile}

theorem exists_of_ofPath? (h : ofPath? root path = some file) : ∃ components,
    Path.below? root path = some components ∧ Path.Below components ∧
      file.canonical = Resource.scheme ++ display components := by
  obtain ⟨components, extension, hcomponents, hextension, rfl⟩ := ofPath?_eq_some_iff.mp h
  have hpath := after?_eq_some_iff.mp hcomponents
  refine ⟨components, hcomponents, ⟨fun c hmem => ?_, fun hmem => ?_, ?_⟩, rfl⟩
  · exact Path.isPlain_of_mem_components (hpath ▸ List.mem_append_right _ hmem)
  · -- Behind components of the root there is no first component.
    refine Path.root_notMem_tail path (hpath ▸ ?_)
    cases Path.components root with
    | nil => exact hmem
    | cons first above => exact List.mem_append_right _ (List.mem_of_mem_tail hmem)
  · rintro rfl
    simp [Path.extension?, Path.fileName?, hpath] at hextension

/-- Files have one resource path when their components below the root show alike, and only then. -/
theorem canonical_eq_iff (h : ofPath? root path = some file) (hother : ofPath? root other = some otherFile) :
    file.canonical = otherFile.canonical ↔ Path.shown? root path = Path.shown? root other := by
  obtain ⟨components, hcomponents, hbelow, hcanonical⟩ := exists_of_ofPath? h
  obtain ⟨others, hothers, hbelow', hcanonical'⟩ := exists_of_ofPath? hother
  rw [hcanonical, hcanonical', Path.shown?, Path.shown?, hcomponents, hothers, List.append_cancel_left_eq,
    Option.map_some, Option.map_some, Option.some.injEq]
  exact ⟨Path.display_inj hbelow hbelow', fun hshown => congrArg (joinWith ['/']) hshown⟩

theorem below?_eq_of_shown? (h : ofPath? root path = some file) (hother : ofPath? root other = some otherFile)
    (hlegible : Path.Legible root path) (hlegible' : Path.Legible root other)
    (hshown : Path.shown? root path = Path.shown? root other) : Path.below? root path = Path.below? root other := by
  obtain ⟨components, hcomponents, hbelow, -⟩ := exists_of_ofPath? h
  obtain ⟨others, hothers, hbelow', -⟩ := exists_of_ofPath? hother
  rw [Path.shown?, Path.shown?, hcomponents, hothers, Option.map_some, Option.map_some, Option.some.injEq] at hshown
  rw [hcomponents, hothers, Path.eq_of_shown (fun c hmem => ⟨hbelow.plain c hmem, hlegible _ hcomponents c hmem⟩)
    (fun c hmem => ⟨hbelow'.plain c hmem, hlegible' _ hothers c hmem⟩) hshown]

end ProjectFile

/-! ### The names in a run -/

namespace Run
variable {system : System} {tree : Node} {working : Location} {settings : Settings} {root : Bytes}
  {files : List ProjectFile} {complaints : List Text}

theorem exists_of_discover (h : discover system tree working settings root = .ok (files, complaints)) : ∃ rules,
    Ignore.exclusions settings.ignorePatterns = .ok rules ∧ files = Walk.projectFiles root
      ((Walk.mk tree working system.ownRule? ⟨rules, settings.respectGitignore⟩).run root) := by
  rw [discover] at h
  split at h
  · cases h
  · rename_i rules hrules
    cases h
    exact ⟨rules, hrules, rfl⟩

theorem nodup_canonical_iff {list : List ProjectFile}
    (h : ∀ file ∈ list, ProjectFile.ofPath? root file.path = some file) :
    (list.map ProjectFile.canonical).Nodup ↔
      list.Pairwise fun file other => Path.shown? root file.path ≠ Path.shown? root other.path := by
  rw [List.Nodup, List.pairwise_map]
  exact List.Pairwise.iff_of_mem fun hfile hother =>
    not_congr (ProjectFile.canonical_eq_iff (h _ hfile) (h _ hother))

theorem pairwise_shown? (h : tree.Proper)
    (hdiscover : discover system tree working settings root = .ok (files, complaints))
    (hlegible : ∀ file ∈ files, Path.Legible root file.path) :
    files.Pairwise fun file other => Path.shown? root file.path ≠ Path.shown? root other.path := by
  obtain ⟨rules, -, rfl⟩ := exists_of_discover hdiscover
  refine (Walk.pairwise_projectFiles h root).imp_of_mem fun hfile hother hne hshown => hne ?_
  exact ProjectFile.below?_eq_of_shown? (Walk.ofPath?_of_mem_projectFiles hfile)
    (Walk.ofPath?_of_mem_projectFiles hother) (hlegible _ hfile) (hlegible _ hother) hshown

theorem mem_of_mem_contents {file : ProjectFile × Bytes} (h : file ∈ contents tree files) : file.1 ∈ files := by
  obtain ⟨read, hmem, hcontent⟩ := List.mem_filterMap.mp h
  obtain ⟨content, -, rfl⟩ := Option.map_eq_some_iff.mp hcontent
  exact (List.mem_filter.mp hmem).1

/-- The files that are packed are among those that the walk comes to, in that order. -/
theorem pairwise_contents {R : ProjectFile → ProjectFile → Prop} (h : files.Pairwise R) :
    (contents tree files).Pairwise fun file other => R file.1 other.1 := by
  rw [contents, List.pairwise_filterMap]
  refine (h.filter _).imp fun hR first hfirst second hsecond => ?_
  obtain ⟨_, -, rfl⟩ := Option.map_eq_some_iff.mp hfirst
  obtain ⟨_, -, rfl⟩ := Option.map_eq_some_iff.mp hsecond
  exact hR

theorem nodup_names_iff (tree : Node) (h : ∀ file ∈ files, ProjectFile.ofPath? root file.path = some file) :
    ((entriesOf tree files).map Entry.name).Nodup ↔ (contents tree files).Pairwise fun file other =>
      Path.shown? root file.1.path ≠ Path.shown? root other.1.path := by
  have hnames : (entriesOf tree files).map Entry.name = (contents tree files).map fun file => file.1.relative := by
    have hentries := congrArg (List.map Prod.fst) (map_entriesOf tree files)
    rwa [List.map_map, List.map_map] at hentries
  have hscheme : Function.Injective fun relative : Text => Resource.scheme ++ relative :=
    fun _ _ => List.append_cancel_left
  have hpath : ∀ file ∈ (contents tree files).map (·.1), ProjectFile.ofPath? root file.path = some file :=
    List.forall_mem_map.mpr fun file hmem => h file.1 (mem_of_mem_contents hmem)
  have hcanonical := nodup_canonical_iff hpath
  rw [List.pairwise_map, List.map_map] at hcanonical
  rw [hnames, ← hcanonical, ← List.nodup_map_iff hscheme, List.map_map]
  rfl

theorem nodup_groups_iff (h : ∀ file ∈ files, ProjectFile.ofPath? root file.path = some file) :
    (∀ line ∈ (Index.ofFiles files).groups.lines, line.2.Nodup) ↔ (Index.keptFiles files).Pairwise fun file other =>
      Path.shown? root file.path ≠ Path.shown? root other.path := by
  rw [Index.nodup_groups_ofFiles_iff]
  exact nodup_canonical_iff fun file hmem => h file (List.mem_of_mem_filter (List.mem_of_mem_filter hmem))

theorem proper_sample : sample.Proper :=
  ⟨by decide, rfl, ⟨by decide, rfl, trivial, by decide, rfl, trivial, trivial⟩, trivial⟩

/-- Files below a root have one resource path when their components show alike, and only then; so files whose names
    are texts have different ones. A run archives its files under different names, and lists none twice in its
    index, when no two of them show alike; so it does when all names are texts. -/
theorem archive_names (root : Bytes) :
    (∀ {path other file otherFile},
      ProjectFile.ofPath? root path = some file → ProjectFile.ofPath? root other = some otherFile →
      (file.canonical = otherFile.canonical ↔ Path.shown? root path = Path.shown? root other) ∧
      (Path.Legible root path → Path.Legible root other → Path.components path ≠ Path.components other →
        file.canonical ≠ otherFile.canonical)) ∧
    ∀ {system tree working settings location summary}, tree.Proper →
      tree.locate working settings.path = .ok location → Ignore.pathOf location = root →
      (run system tree working settings).outcome = .ok summary →
      ∃ files complaints, discover system tree working settings root = .ok (files, complaints) ∧
        write system tree working settings (entriesOf tree files) = .ok (run system tree working settings).tree ∧
        (((entriesOf tree files).map Entry.name).Nodup ↔ (contents tree files).Pairwise fun file other =>
          Path.shown? root file.1.path ≠ Path.shown? root other.1.path) ∧
        ((∀ line ∈ (Index.ofFiles files).groups.lines, line.2.Nodup) ↔ (Index.keptFiles files).Pairwise
          fun file other => Path.shown? root file.path ≠ Path.shown? root other.path) ∧
        ((∀ file ∈ files, Path.Legible root file.path) →
          ((entriesOf tree files).map Entry.name).Nodup ∧
            ∀ line ∈ (Index.ofFiles files).groups.lines, line.2.Nodup) := by
  refine ⟨fun {path other file otherFile} h hother => ⟨ProjectFile.canonical_eq_iff h hother, ?_⟩, ?_⟩
  · intro hlegible hlegible' hne he
    have hbelow := ProjectFile.below?_eq_of_shown? h hother hlegible hlegible'
      ((ProjectFile.canonical_eq_iff h hother).mp he)
    obtain ⟨components, hcomponents, -⟩ := ProjectFile.exists_of_ofPath? h
    have hpath := after?_eq_some_iff.mp hcomponents
    have hpath' := after?_eq_some_iff.mp (hbelow ▸ hcomponents)
    exact hne (hpath.trans hpath'.symm)
  · rintro system tree working settings location summary hproper hlocate rfl h
    obtain ⟨location', files, complaints, hlocate', hdiscover, -, hwrite, -⟩ := exists_of_outcome h
    cases hlocate.symm.trans hlocate'
    have hpath : ∀ file ∈ files, ProjectFile.ofPath? (Ignore.pathOf location) file.path = some file := by
      obtain ⟨rules, -, rfl⟩ := exists_of_discover hdiscover
      exact fun file hmem => Walk.ofPath?_of_mem_projectFiles hmem
    have hnames := nodup_names_iff tree hpath
    have hgroups := nodup_groups_iff hpath
    refine ⟨files, complaints, hdiscover, hwrite, hnames, hgroups, fun hlegible => ?_⟩
    have hshown := pairwise_shown? hproper hdiscover hlegible
    exact ⟨hnames.mpr (pairwise_contents hshown), hgroups.mpr ((hshown.filter _).filter _)⟩

theorem archive_names_sample :
    (∀ file ∈ sampleFiles, ProjectFile.ofPath? (Utf8.encode "/p".toList) file.path = some file ∧
      Path.Legible (Utf8.encode "/p".toList) file.path) ∧
    Path.components sampleFiles[0].path ≠ Path.components sampleFiles[1].path ∧
    sampleFiles[0].canonical ≠ sampleFiles[1].canonical ∧
    sample.Proper ∧ (run sampleSystem sample [] sampleSettings).outcome = .ok ⟨⟨2, 0, 1, 0, 1⟩, []⟩ ∧
    write sampleSystem sample [] sampleSettings (entriesOf sample sampleFiles) =
      .ok (run sampleSystem sample [] sampleSettings).tree ∧
    ((entriesOf sample sampleFiles).map Entry.name).Nodup ∧
    ∀ line ∈ (Index.ofFiles sampleFiles).groups.lines, line.2.Nodup := by
  have hfile : ∀ file ∈ sampleFiles, ProjectFile.ofPath? (Utf8.encode "/p".toList) file.path = some file ∧
      Path.Legible (Utf8.encode "/p".toList) file.path := by decide
  have hcomponents : Path.components sampleFiles[0].path ≠ Path.components sampleFiles[1].path := by decide
  obtain ⟨hfirst, hlegible⟩ := hfile sampleFiles[0] (by decide)
  obtain ⟨hsecond, hlegible'⟩ := hfile sampleFiles[1] (by decide)
  have hcanonical := ((archive_names _).1 hfirst hsecond).2 hlegible hlegible' hcomponents
  obtain ⟨files, complaints, hdiscover, hwrite, -, -, hnames⟩ :=
    (archive_names (Utf8.encode "/p".toList)).2 proper_sample locate_sample (by decide) outcome_sample
  have hfiles : (sampleFiles, []) = (files, complaints) := Except.ok.inj (discover_sample.symm.trans hdiscover)
  obtain ⟨rfl, -⟩ := Prod.mk.inj hfiles
  obtain ⟨hdistinct, hgroups⟩ := hnames fun file hmem => (hfile file hmem).2
  exact ⟨hfile, hcomponents, hcanonical, proper_sample, outcome_sample, hwrite, hdistinct, hgroups⟩

/-- Files in folders whose names are no texts can share a resource path. -/
theorem canonical_shared : ∃ file otherFile,
    ProjectFile.ofPath? (Utf8.encode "/p".toList)
      (Utf8.encode "/p/".toList ++ 0xfe :: Utf8.encode "/a.gd".toList) = some file ∧
    ProjectFile.ofPath? (Utf8.encode "/p".toList)
      (Utf8.encode "/p/".toList ++ 0xff :: Utf8.encode "/a.gd".toList) = some otherFile ∧
    Path.components file.path ≠ Path.components otherFile.path ∧ file.canonical = otherFile.canonical := by
  refine ⟨_, _, rfl, rfl, ?_, ?_⟩ <;> decide

end Run
end Relink

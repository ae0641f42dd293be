import Mathlib.Data.List.Infix
import Relink.Proofs.Descending
import Relink.Proofs.Exclusions

/-! # What a plain walk finds

A walk that leaves the standard rules aside comes to every file that folders which can be listed lead to from its
root, unless a pattern matches the file or a folder on the way. It comes to each one once and in the order of the
components, and the project files are those with one of the extensions of a project: all of them lie below the root.
It complains about the folders that it comes to and cannot open. -/

namespace Relink

/-! ### What patterns spare -/

/-- Whether no pattern matches what names lead to from a root, nor a folder on the way. -/
def Ignore.Spares (patterns : List Text) (names : List Bytes) : Prop :=
  ∀ front, front <+: names → front ≠ [] → ∀ pattern ∈ patterns,
    patternMatches pattern (joinWith [Path.slash] front) (decide (front ≠ names)) = false

instance (patterns : List Text) (names : List Bytes) : Decidable (Ignore.Spares patterns names) :=
  decidable_of_iff (∀ front ∈ names.inits, front ≠ [] → ∀ pattern ∈ patterns,
    Ignore.patternMatches pattern (joinWith [Path.slash] front) (decide (front ≠ names)) = false)
    (forall_congr' fun _ => imp_congr (List.mem_inits _ _) Iff.rfl)

namespace Walk
variable {walk : Walk} {scope : Scope} {root : Bytes} {names below : List Bytes} {location : Location}
  {node : Node} {patterns : List Text} {rules : List Ignore.Rule} {isFolder : Bool}

theorem skips_plain_iff (hrules : Ignore.exclusions patterns = .ok rules) :
    (Filter.mk rules false).skips scope names isFolder = false ↔
      ∀ pattern ∈ patterns, Ignore.patternMatches pattern (joinWith [Path.slash] names) isFolder = false := by
  rw [← Bool.not_eq_true, Filter.skips_iff, Ignore.override?_exclusions hrules]
  simp

/-- A walk keeps what its patterns spare, on the way as at the end. -/
theorem keeps_plain_iff (hrules : Ignore.exclusions patterns = .ok rules) (hfilter : walk.filter = ⟨rules, false⟩) :
    walk.Keeps scope names isFolder below ↔ ∀ front, front <+: below → front ≠ [] → ∀ pattern ∈ patterns,
      Ignore.patternMatches pattern (joinWith [Path.slash] (names ++ front)) (decide (front ≠ below) || isFolder) =
        false := by
  induction below generalizing scope names with
  | nil =>
    refine ⟨fun _ front hfront hne => absurd (List.prefix_nil.mp hfront) hne, fun _ => trivial⟩
  | cons name below ih =>
    have hfolder : (!below.isEmpty) = decide ([name] ≠ name :: below) := by cases below <;> simp
    rw [Keeps, ih, hfilter, skips_plain_iff hrules, hfolder]
    constructor
    · rintro ⟨hname, hbelow⟩ front hfront hne
      obtain rfl | ⟨rest, rfl, hrest⟩ := List.prefix_cons_iff.mp hfront
      · exact absurd rfl hne
      · by_cases hnil : rest = []
        · rw [hnil]
          exact hname
        · intro pattern hpattern
          have hspared := hbelow rest hrest hnil pattern hpattern
          rw [List.append_assoc, List.singleton_append] at hspared
          simpa using hspared
    · intro h
      refine ⟨h [name] (List.prefix_cons_iff.mpr (Or.inr ⟨[], rfl, List.nil_prefix⟩)) (List.cons_ne_nil _ _), ?_⟩
      intro front hfront _ pattern hpattern
      have hspared := h (name :: front) (List.prefix_cons_iff.mpr (Or.inr ⟨front, rfl, hfront⟩))
        (List.cons_ne_nil _ _) pattern hpattern
      rw [List.append_assoc, List.singleton_append]
      simpa using hspared

theorem keeps_iff_spares (hrules : Ignore.exclusions patterns = .ok rules) (hfilter : walk.filter = ⟨rules, false⟩) :
    walk.Keeps scope [] false names ↔ Ignore.Spares patterns names := by
  rw [keeps_plain_iff hrules hfilter]
  simp only [Bool.or_false, List.nil_append]
  rfl

/-! ### The files in order -/

theorem pairwise_lt_below (h : node.Proper) : (walk.below scope node).Pairwise (· < ·) :=
  (pairwise_below walk scope node).imp₂ (fun _ _ hle hne => Std.lt_of_le_of_ne hle hne) (nodup_below h)

/-! ### Project files by extension -/

/-- The extensions of a project's files. -/
def projectExtensions : List Text := ["gd".toList, "tscn".toList, "tres".toList, "res".toList]

/-- Whether a path has one of the extensions of a project's files. -/
def hasProjectExtension (path : Bytes) : Bool :=
  (Path.extension? path).any fun extension => (projectExtensions.map Utf8.encode).contains extension

/-- An extension that shows as one of a project's files is one, byte for byte. -/
theorem contains_decodeLossy (extension : Bytes) :
    (Resource.editable.contains (Utf8.decodeLossy extension) ||
      Resource.indexable.contains (Utf8.decodeLossy extension)) =
        (projectExtensions.map Utf8.encode).contains extension := by
  have hwanted : ∀ text : Text, (Resource.editable.contains text || Resource.indexable.contains text) = true ↔
      text ∈ projectExtensions := by
    intro text
    simp only [Bool.or_eq_true, List.contains_iff_mem, Resource.editable, Resource.indexable, projectExtensions,
      List.mem_cons, List.not_mem_nil, or_false]
    tauto
  have hascii : ∀ text ∈ projectExtensions, Utf8.IsAscii text := by decide
  rw [Bool.eq_iff_iff, hwanted, List.contains_iff_mem, List.mem_map]
  constructor
  · intro hmem
    exact ⟨_, hmem, (Utf8.eq_encode_of_decodeLossy (hascii _ hmem)).symm⟩
  · rintro ⟨text, hmem, rfl⟩
    rwa [Utf8.decodeLossy_encode]

/-- No file with such an extension is lost: the names that lead to it are its components below the root. -/
theorem fileAt?_map_path (root : Bytes) (h : ∀ name ∈ names, Path.IsPlain name) :
    (fileAt? root names).map (·.path) = Option.guard hasProjectExtension (pathOf root names) := by
  rw [Option.guard, hasProjectExtension, fileAt?, ProjectFile.ofPath?, Path.below?_pathOf root h]
  cases Path.extension? (pathOf root names) with
  | none => rfl
  | some extension =>
    rw [Option.any_some, ← contains_decodeLossy]
    simp only [Option.bind_eq_bind, Option.bind_some, Option.pure_def, Option.filter_some]
    rw [ProjectFile.isEditable, ProjectFile.isIndexable]
    split <;> rfl

theorem map_path_projectFiles (root : Bytes) {found : List (List Bytes)} (complaints : List Text)
    (h : ∀ names ∈ found, ∀ name ∈ names, Path.IsPlain name) :
    (projectFiles root ⟨found.map (pathOf root), complaints⟩).map (·.path) =
      (found.map (pathOf root)).filter hasProjectExtension := by
  rw [projectFiles_map, List.map_filterMap, ← List.filterMap_eq_filter, List.filterMap_map]
  exact List.filterMap_congr fun names hmem => fileAt?_map_path root (h names hmem)

/-! ### What a walk does not come to -/

/-- Where names lead, but not through folders that can be listed, a folder on the way refuses. -/
theorem exists_refusal {target : Node} (hfind : node.find? names = some target) (hlisted : node.listed? names = none) :
    ∃ above below entries reason, names = above ++ below ∧ below ≠ [] ∧
      node.listed? above = some (.folder entries (some reason)) := by
  induction names generalizing node with
  | nil => cases node <;> cases hlisted
  | cons name names ih =>
    obtain ⟨entries, refusal, child, rfl, hchild, hrest⟩ := Node.exists_child hfind
    cases refusal with
    | some reason => exact ⟨[], name :: names, entries, reason, rfl, List.cons_ne_nil _ _, rfl⟩
    | none =>
      rw [Node.listed?, hchild] at hlisted
      obtain ⟨above, below, sealedEntries, reason, rfl, hbelow, habove⟩ := ih hrest hlisted
      refine ⟨name :: above, below, sealedEntries, reason, rfl, hbelow, ?_⟩
      rw [Node.listed?, hchild]
      exact habove

/-- Where no folder below a location refuses, what names lead to from there can be listed. -/
theorem bind_listed? {tree : Node}
    (hopen : ∀ below entries reason, tree.find? (location ++ below) ≠ some (.folder entries (some reason)))
    (names : List Bytes) : (tree.find? location).bind (·.listed? names) = tree.find? (location ++ names) := by
  rw [Node.find?_append]
  cases hfind : tree.find? location with
  | none => rfl
  | some node =>
    dsimp only [Option.bind_some]
    cases hlisted : node.listed? names with
    | some target => rw [Node.find?_of_listed? hlisted]
    | none =>
      cases htarget : node.find? names with
      | none => rfl
      | some target =>
        obtain ⟨above, below, entries, reason, -, -, habove⟩ := exists_refusal htarget hlisted
        refine absurd ?_ (hopen above entries reason)
        rw [Node.find?_append, hfind]
        exact Node.find?_of_listed? habove

/-- The walk comes to every folder above what the patterns spare. -/
theorem keeps_above (hrules : Ignore.exclusions patterns = .ok rules) (hfilter : walk.filter = ⟨rules, false⟩)
    {above : List Bytes} (hspares : Ignore.Spares patterns (above ++ below)) (hbelow : below ≠ []) :
    walk.Keeps scope [] true above := by
  rw [keeps_plain_iff hrules hfilter]
  intro front hfront hne pattern hpattern
  have hshorter : front ≠ above ++ below := by
    rintro rfl
    have hlength := hfront.length_le
    rw [List.length_append] at hlength
    exact hbelow (List.length_eq_zero_iff.mp (by omega))
  have hspared := hspares front (hfront.trans (List.prefix_append _ _)) hne pattern hpattern
  rw [decide_eq_true hshorter] at hspared
  rw [Bool.or_true]
  exact hspared

/-- A folder that refuses to be listed is complained about, if the walk comes to it. -/
theorem mem_complaints_of_refusal (hproper : walk.tree.Proper)
    (hlocate : walk.tree.locate walk.working root = .ok location) (hfind : walk.tree.find? location = some node)
    {above : List Bytes} {entries : Folder} {reason : Text}
    (hlisted : node.listed? above = some (.folder entries (some reason)))
    (hshort : (pathOf root above).length ≤ pathLimit)
    (hkeeps : walk.Keeps (walk.enter (walk.scopeAt root location node) []) [] true above) :
    complaint (fault (pathOf root above) (.refused reason)) ∈ (walk.run root).complaints := by
  have hbelow := Node.find?_of_listed? hlisted
  have hleads := Node.locate_below hproper hlocate hfind hbelow (fun _ => Node.noConfusion) hshort
  have hsame : walk.tree.find? (location ++ above) = some (.folder entries (some reason)) := by
    rw [Node.find?_append, hfind]
    exact hbelow
  have hclosed : walk.closed? (pathOf root above) (some reason) = some (.refused reason) := by
    rw [closed?, Node.stat_eq hleads hsame]
    rfl
  have hmet : .error (fault (pathOf root above) (.refused reason)) ∈
      walk.visit (walk.scopeAt root location node) [] node := by
    refine (mem_visit_iff walk _ [] _ node (Node.proper_of_find? hproper hfind).2).mpr
      ⟨above, _, hlisted, opens_of_locate hproper hlocate hfind hbelow hshort, hkeeps, ?_⟩
    rw [metAt, List.nil_append]
    refine List.mem_cons_of_mem _ ?_
    show _ ∈ (Option.map _ (walk.closed? (pathOf root above) (some reason))).toList
    rw [hclosed]
    exact List.mem_singleton_self _
  rw [run_eq hlocate hfind, runAt]
  exact List.mem_map_of_mem (List.mem_append_right _ (mem_faultsOf_iff.mpr hmet))

/-- A file that the patterns spare and that is not to be found in lists lies below a folder which refuses to be listed
    and is complained about. -/
theorem exists_complaint (walk : Walk) (hproper : walk.tree.Proper)
    (hlocate : walk.tree.locate walk.working root = .ok location) (hfind : walk.tree.find? location = some node)
    (hrules : Ignore.exclusions patterns = .ok rules) (hfilter : walk.filter = ⟨rules, false⟩)
    (hspares : Ignore.Spares patterns names) (hnames : (walk.tree.find? (location ++ names)).isSome = true)
    (hfile : walk.tree.hasFile walk.working (pathOf root names) = true) (hlisted : node.listed? names = none) :
    ∃ above below entries reason, names = above ++ below ∧ below ≠ [] ∧
      walk.tree.find? (location ++ above) = some (.folder entries (some reason)) ∧
      complaint (fault (pathOf root above) (.refused reason)) ∈ (walk.run root).complaints := by
  obtain ⟨target, htarget⟩ := Option.isSome_iff_exists.mp hnames
  rw [Node.find?_append, hfind, Option.bind_some] at htarget
  obtain ⟨above, below, entries, reason, rfl, hbelow, habove⟩ := exists_refusal htarget hlisted
  have hentries := (Node.proper_of_find? (Node.proper_of_find? hproper hfind).2 htarget).1
  have hshort : (pathOf root above).length ≤ pathLimit := by
    refine Nat.le_trans ?_ (Node.length_le_of_hasFile hfile)
    rw [pathOf_append]
    exact Node.length_le_pathOf (fun name hname => hentries name (List.mem_append_right _ hname)) _
  have hrefuses : walk.tree.find? (location ++ above) = some (.folder entries (some reason)) := by
    rw [Node.find?_append, hfind]
    exact Node.find?_of_listed? habove
  exact ⟨above, below, entries, reason, rfl, hbelow, hrefuses,
    mem_complaints_of_refusal hproper hlocate hfind habove hshort (keeps_above hrules hfilter hspares hbelow)⟩

/-- For usable patterns a plain walk comes to exactly those entries whose path leads to a file, among those that
    folders which can be listed lead to and the patterns spare, to each one once and in the order of the components. If
    no folder refuses to be listed, these are all that folders lead to; a file that the patterns spare and the walk does
    not come to lies below a folder which refuses and is complained about. The project files are, in that order, those
    with an extension of a project's files, and the way to each is what its path has below the root. -/
theorem plain_walk {tree : Node} {working : Location} (ownRule? : Location → Bool → Option Decision)
    (hproper : tree.Proper) (hlocate : tree.locate working root = .ok location)
    (husable : ∀ pattern ∈ patterns, Ignore.Usable pattern) : ∃ (rules : List Ignore.Rule) (found : List (List Bytes)),
      Ignore.exclusions patterns = .ok rules ∧
      let walked := (Walk.mk tree working ownRule? ⟨rules, false⟩).run root
      walked.paths = found.map (pathOf root) ∧ found.Pairwise (· < ·) ∧
      (∀ names, names ∈ found ↔ Ignore.Spares patterns names ∧
        ((tree.find? location).bind (·.listed? names)).isSome = true ∧
        tree.hasFile working (pathOf root names) = true) ∧
      ((∀ below entries reason, tree.find? (location ++ below) ≠ some (.folder entries (some reason))) →
        ∀ names, names ∈ found ↔ Ignore.Spares patterns names ∧ (tree.find? (location ++ names)).isSome = true ∧
          tree.hasFile working (pathOf root names) = true) ∧
      (∀ names, names ∉ found → Ignore.Spares patterns names → (tree.find? (location ++ names)).isSome = true →
        tree.hasFile working (pathOf root names) = true → ∃ above below entries reason, names = above ++ below ∧
          below ≠ [] ∧ tree.find? (location ++ above) = some (.folder entries (some reason)) ∧
          complaint (fault (pathOf root above) (.refused reason)) ∈ walked.complaints) ∧
      (∀ names ∈ found, Path.below? root (pathOf root names) = some (names.map .name)) ∧
      (projectFiles root walked).map (·.path) = walked.paths.filter hasProjectExtension := by
  obtain ⟨rules, hrules⟩ := Ignore.exists_exclusions_iff.mpr husable
  let walk : Walk := ⟨tree, working, ownRule?, ⟨rules, false⟩⟩
  cases hfind : tree.find? location with
  | none =>
    have hrun : walk.run root = ⟨[], [complaint (fault root .notFound)]⟩ := run_missing hlocate hfind
    have hnothing : ∀ names, tree.find? (location ++ names) = none := fun names => by
      rw [Node.find?_append, hfind, Option.bind_none]
    refine ⟨rules, [], hrules, congrArg Walked.paths hrun, .nil, fun names => ?_, fun _ names => ?_,
      fun names _ _ hnames => ?_, fun _ hmem => absurd hmem List.not_mem_nil, ?_⟩
    · simp
    · simp [hnothing]
    · rw [hnothing] at hnames
      cases hnames
    · show (projectFiles root (walk.run root)).map _ = (walk.run root).paths.filter _
      rw [hrun]
      rfl
  | some node =>
    have hnode : node.Proper := (Node.proper_of_find? hproper hfind).2
    have hrun : walk.run root = walk.runAt root location node := run_eq hlocate hfind
    have hfound : ∀ names, names ∈ walk.below (walk.scopeAt root location node) node ↔
        Ignore.Spares patterns names ∧ (node.listed? names).isSome = true ∧
          tree.hasFile working (pathOf root names) = true := by
      intro names
      rw [mem_below_scopeAt_iff hproper hlocate hfind, keeps_iff_spares hrules rfl]
      tauto
    refine ⟨rules, walk.below (walk.scopeAt root location node) node, hrules, congrArg Walked.paths hrun,
      pairwise_lt_below hnode, hfound, fun hopen names => ?_, fun names hmissing hspares hnames hfile => ?_,
      fun names hmem => ?_, ?_⟩
    · rw [← bind_listed? hopen, hfind]
      exact hfound names
    · refine exists_complaint walk hproper hlocate hfind hrules rfl hspares hnames hfile ?_
      rw [← Option.not_isSome_iff_eq_none]
      exact fun hlisted => hmissing ((hfound names).mpr ⟨hspares, hlisted, hfile⟩)
    · exact Path.below?_pathOf root (isPlain_of_mem_below hnode hmem)
    · show (projectFiles root (walk.run root)).map _ = (walk.run root).paths.filter _
      rw [hrun]
      exact map_path_projectFiles root _ fun names => isPlain_of_mem_below hnode

/-- A project with a folder `g` and, in another folder, a file `g`. One of its files is a link, and a folder `s` cannot
    be listed. -/
def sampleTree : Node :=
  .folder (.entry (Utf8.encode "p".toList)
    (.folder (.entry (Utf8.encode "g".toList) (.folder (.entry (Utf8.encode "b.gd".toList) (.file []) .empty) none)
      (.entry (Utf8.encode "d".toList) (.folder (.entry (Utf8.encode "g".toList) (.file []) .empty) none)
        (.entry (Utf8.encode "l.gd".toList) (.link (Utf8.encode "d/g".toList))
          (.entry (Utf8.encode "s".toList)
            (.folder (.entry (Utf8.encode "c.gd".toList) (.file []) .empty) (some "no".toList)) .empty)))) none)
    .empty) none

theorem hasFile_sampleTree : sampleTree.hasFile [] (Utf8.encode "/p/l.gd".toList) = true := by
  have hway : Node.Way sampleTree 40 [] (splitAt Path.slash (Utf8.encode "/p/l.gd".toList))
      [Utf8.encode "p".toList, Utf8.encode "d".toList, Utf8.encode "g".toList] 39 :=
    .stay rfl (Or.inl rfl) (.entry rfl (by decide) rfl nofun (.link rfl (by decide) rfl
      (.entry rfl (by decide) rfl nofun (.entry rfl (by decide) rfl nofun .refl))))
  have hlocate : sampleTree.locate [] (Utf8.encode "/p/l.gd".toList) =
      .ok [Utf8.encode "p".toList, Utf8.encode "d".toList, Utf8.encode "g".toList] := by
    have hrefuse : Node.refuse? (Utf8.encode "/p/l.gd".toList) = none := by decide
    rw [Node.locate, hrefuse]
    exact congrArg (Except.map Prod.fst) hway.follow
  rw [Node.hasFile, Node.stat, hlocate]
  rfl

theorem plain_walk_sample : ∃ (rules : List Ignore.Rule) (found : List (List Bytes)),
    Ignore.exclusions ["g/".toList] = .ok rules ∧
    let root := Utf8.encode "/p".toList
    let walked := (Walk.mk sampleTree [] (fun _ _ => none) ⟨rules, false⟩).run root
    walked.paths = found.map (pathOf root) ∧
    [Utf8.encode "d".toList, Utf8.encode "g".toList] ∈ found ∧
    [Utf8.encode "g".toList, Utf8.encode "b.gd".toList] ∉ found ∧
    [Utf8.encode "s".toList, Utf8.encode "c.gd".toList] ∉ found ∧ walked.complaints ≠ [] ∧
    Utf8.encode "/p/l.gd".toList ∈ (projectFiles root walked).map (·.path) := by
  have hproper : sampleTree.Proper := by
    simp only [sampleTree, Node.Proper, Folder.Proper, Folder.find?]
    decide
  have hlocate : sampleTree.locate [] (Utf8.encode "/p".toList) = .ok [Utf8.encode "p".toList] :=
    Node.locate_absolute (by decide) (by decide) (by decide) (by decide) rfl fun _ => Node.noConfusion
  have husable : ∀ pattern ∈ ["g/".toList], Ignore.Usable pattern := by
    rw [List.forall_mem_singleton]
    exact ⟨_, rfl⟩
  obtain ⟨rules, found, hrules, hpaths, -, hfound, -, hmissing, -, hfiles⟩ :=
    plain_walk (fun _ _ => none) hproper hlocate husable
  have hsealed : [Utf8.encode "s".toList, Utf8.encode "c.gd".toList] ∉ found :=
    fun hmem => absurd ((hfound _).mp hmem).2.1 (by decide)
  refine ⟨rules, found, hrules, hpaths, ?_, ?_, hsealed, ?_, ?_⟩
  · exact (hfound _).mpr ⟨by decide, rfl, Node.hasFile_absolute
      [Utf8.encode "p".toList, Utf8.encode "d".toList, Utf8.encode "g".toList]
      (by decide) (by decide) (by decide) (by decide) rfl⟩
  · intro hmem
    exact absurd ((hfound _).mp hmem).1 (by decide)
  · obtain ⟨above, below, entries, reason, -, -, -, hcomplaint⟩ := hmissing _ hsealed (by decide) rfl
      (Node.hasFile_absolute [Utf8.encode "p".toList, Utf8.encode "s".toList, Utf8.encode "c.gd".toList]
        (by decide) (by decide) (by decide) (by decide) rfl)
    exact List.ne_nil_of_mem hcomplaint
  · have hlink : [Utf8.encode "l.gd".toList] ∈ found := (hfound _).mpr ⟨by decide, rfl, hasFile_sampleTree⟩
    rw [hfiles, hpaths, List.mem_filter]
    exact ⟨List.mem_map_of_mem hlink, by decide⟩

end Walk
end Relink

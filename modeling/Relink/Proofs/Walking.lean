import Mathlib.Data.List.Nodup
import Relink.Proofs.Parts
import Relink.Proofs.Reaching

/-! # What a walk comes to

In a tree as a file system holds it the entries of a folder have names of their own, which are names that a
path can write. There a walk meets every entry that folders lead to which it can open and no rule leaves out, and
each one once. It comes to those of them whose path leads to a file. -/

namespace Relink

/-! ### Proper trees -/

/-- A name that an entry of a folder can have and a path can write. -/
def Node.IsEntryName (name : Bytes) : Prop := IsName name ∧ Path.slash ∉ name ∧ 0 ∉ name

instance (name : Bytes) : Decidable (Node.IsEntryName name) := inferInstanceAs (Decidable (_ ∧ _ ∧ _))

mutual

/-- Whether the entries of each folder have names of their own. -/
def Node.Proper : Node → Prop
  | .folder entries _ => entries.Proper
  | _ => True

/-- Whether the entries have names of their own, and so have those below. -/
def Folder.Proper : Folder → Prop
  | .empty => True
  | .entry name node rest => Node.IsEntryName name ∧ rest.find? name = none ∧ node.Proper ∧ rest.Proper

end

theorem Node.IsEntryName.isPlain {name : Bytes} (h : Node.IsEntryName name) : Path.IsPlain name :=
  ⟨h.1.1, h.1.2.1, h.1.2.2.1, h.2.1⟩

variable {entries : Folder} {node target : Node} {name : Bytes} {names below : List Bytes}

theorem Folder.proper_of_find? : ∀ {entries : Folder}, entries.Proper → entries.find? name = some node →
    Node.IsEntryName name ∧ node.Proper
  | .entry other child rest, h, hfind => by
    obtain ⟨hname, -, hchild, hrest⟩ := h
    rw [find?] at hfind
    split at hfind
    · rename_i he
      cases hfind
      exact ⟨he ▸ hname, hchild⟩
    · exact proper_of_find? hrest hfind

theorem Node.proper_of_find? (h : node.Proper) (hfind : node.find? names = some target) :
    (∀ name ∈ names, IsEntryName name) ∧ target.Proper := by
  induction names generalizing node with
  | nil =>
    rw [find?] at hfind
    cases hfind
    exact ⟨fun _ hmem => absurd hmem List.not_mem_nil, h⟩
  | cons name names ih =>
    cases node with
    | folder entries refusal =>
      rw [find?, Option.bind_eq_some_iff] at hfind
      obtain ⟨child, hchild, hbelow⟩ := hfind
      obtain ⟨hname, hproper⟩ := Folder.proper_of_find? h hchild
      obtain ⟨hnames, htarget⟩ := ih hproper hbelow
      exact ⟨List.forall_mem_cons.mpr ⟨hname, hnames⟩, htarget⟩
    | _ => cases hfind

/-- What names lead to through folders that can be listed, they lead to. -/
theorem Node.find?_of_listed? (h : node.listed? names = some target) : node.find? names = some target := by
  fun_induction node.listed? names with
  | case1 => rwa [find?]
  | case2 name names entries ih =>
    rw [Option.bind_eq_some_iff] at h
    obtain ⟨child, hchild, hbelow⟩ := h
    rw [find?, hchild]
    exact ih child hbelow
  | case3 => cases h

/-- What a folder has under a name is one of its entries. -/
theorem Folder.mem_of_find? (h : entries.find? name = some node) : (name, node) ∈ entries.toList := by
  induction entries using Folder.find?.induct name with
  | case1 => cases h
  | case2 child rest =>
    rw [find?, if_pos rfl] at h
    cases h
    exact List.mem_cons_self
  | case3 other child rest hother ih =>
    rw [find?, if_neg hother] at h
    exact List.mem_cons_of_mem _ (ih h)

/-- What names lead to below a folder, they lead to from an entry of it. -/
theorem Node.exists_of_listed? {refusal : Option Text}
    (h : ((folder entries refusal).listed? (name :: names)).isSome = true) :
    ∃ child, (name, child) ∈ entries.toList ∧ (child.listed? names).isSome = true := by
  cases refusal with
  | some reason => cases h
  | none =>
    obtain ⟨target, htarget⟩ := Option.isSome_iff_exists.mp h
    rw [listed?, Option.bind_eq_some_iff] at htarget
    obtain ⟨child, hchild, hbelow⟩ := htarget
    exact ⟨child, Folder.mem_of_find? hchild, Option.isSome_iff_exists.mpr ⟨target, hbelow⟩⟩

/-- Names lead on from folders only. -/
theorem Node.isFolder_of_find? (h : node.find? names = some target) :
    node.isFolder = (!names.isEmpty || target.isFolder) := by
  cases names with
  | nil =>
    rw [find?] at h
    cases h
    rfl
  | cons name names =>
    cases node with
    | folder => rfl
    | _ => cases h

/-! ### What a walk meets -/

namespace Walk
variable {walk : Walk} {scope : Scope} {root path : Bytes} {location : Location} {refusal : Option Text}
  {other : List Bytes} {met : Except Text (List Bytes)}

/-- Whether no rule leaves out what names lead to from a folder, nor a folder on the way. -/
def Keeps (walk : Walk) (scope : Scope) (names : List Bytes) (isFolder : Bool) : List Bytes → Prop
  | [] => True
  | name :: below => walk.filter.skips scope (names ++ [name]) (!below.isEmpty || isFolder) = false ∧
      walk.Keeps (walk.enter scope (names ++ [name])) (names ++ [name]) isFolder below

/-- Whether the path of each folder on the way that names lead leads somewhere. -/
def Opens (walk : Walk) (root : Bytes) (names : List Bytes) : List Bytes → Prop
  | [] => True
  | name :: below => (∃ node, walk.tree.stat walk.working (pathOf root names) = .ok node) ∧
      walk.Opens root (names ++ [name]) below

/-- What a walk meets at an entry itself. -/
def metAt (walk : Walk) (root : Bytes) (names : List Bytes) : Node → List (Except Text (List Bytes))
  | .folder _ refusal =>
    .ok names :: ((walk.closed? (pathOf root names) refusal).map fun error =>
      .error (fault (pathOf root names) error)).toList
  | _ => [.ok names]

theorem enter_path (walk : Walk) (scope : Scope) (names : List Bytes) : (walk.enter scope names).path = scope.path := by
  rw [enter]
  split <;> rfl

theorem closed?_eq_none_iff : walk.closed? path refusal = none ↔
    (∃ node, walk.tree.stat walk.working path = .ok node) ∧ refusal = none := by
  rw [closed?]
  split <;> rename_i h <;> simp [h]

theorem ok_mem_metAt_iff : .ok other ∈ walk.metAt root names node ↔ other = names := by
  cases node <;> simp [metAt]

/-- At an entry that is no folder a walk meets the entry only. -/
theorem exists_leaf_iff (hleaf : node.isFolder = false) : (∃ below target, node.listed? below = some target ∧
      walk.Opens root names below ∧ walk.Keeps scope names target.isFolder below ∧
      met ∈ walk.metAt root (names ++ below) target) ↔ met = .ok names := by
  constructor
  · rintro ⟨below, target, hlisted, -, -, hmet⟩
    rw [Node.isFolder_of_find? (Node.find?_of_listed? hlisted), Bool.or_eq_false_iff, Bool.not_eq_false',
      List.isEmpty_iff] at hleaf
    obtain ⟨rfl, htarget⟩ := hleaf
    rw [List.append_nil] at hmet
    cases target with
    | folder => cases htarget
    | _ => exact List.mem_singleton.mp hmet
  · rintro rfl
    refine ⟨[], node, by cases node <;> rfl, trivial, trivial, ?_⟩
    rw [ok_mem_metAt_iff, List.append_nil]

mutual

/-- What a walk meets from an entry on is what it meets at the entries that open folders lead to from there and no
    rule leaves out. -/
theorem mem_visit_iff (walk : Walk) (scope : Scope) (names : List Bytes) (met : Except Text (List Bytes)) :
    ∀ node : Node, node.Proper → (met ∈ walk.visit scope names node ↔ ∃ below target,
      node.listed? below = some target ∧ walk.Opens scope.path names below ∧
      walk.Keeps (walk.enter scope names) names target.isFolder below ∧
      met ∈ walk.metAt scope.path (names ++ below) target)
  | .file _, _ => by rw [visit, List.mem_singleton, exists_leaf_iff rfl]; exact fun _ _ => Node.noConfusion
  | .locked _, _ => by rw [visit, List.mem_singleton, exists_leaf_iff rfl]; exact fun _ _ => Node.noConfusion
  | .special _, _ => by rw [visit, List.mem_singleton, exists_leaf_iff rfl]; exact fun _ _ => Node.noConfusion
  | .link _, _ => by rw [visit, List.mem_singleton, exists_leaf_iff rfl]; exact fun _ _ => Node.noConfusion
  | .folder entries refusal, h => by
    rw [visit, List.mem_cons]
    cases hclosed : walk.closed? (pathOf scope.path names) refusal with
    | some error =>
      dsimp only
      constructor
      · intro hmet
        refine ⟨[], .folder entries refusal, rfl, trivial, trivial, ?_⟩
        rw [List.append_nil, metAt, hclosed]
        exact List.mem_cons.mpr hmet
      · rintro ⟨below, target, hlisted, hopens, -, hmet⟩
        cases below with
        | nil =>
          cases hlisted
          rw [List.append_nil, metAt, hclosed] at hmet
          exact List.mem_cons.mp hmet
        | cons name below =>
          -- The walk does not go on from here: either the folder refuses, or its path leads nowhere.
          cases refusal with
          | some reason => cases hlisted
          | none =>
            rw [closed?_eq_none_iff.mpr ⟨hopens.1, rfl⟩] at hclosed
            cases hclosed
    | none =>
      obtain ⟨hstat, rfl⟩ := closed?_eq_none_iff.mp hclosed
      dsimp only
      rw [mem_visitAll_iff walk _ names met entries h, enter_path]
      constructor
      · rintro (rfl | ⟨name, below, node, target, hname, hlisted, hopens, hkeeps, hmet⟩)
        · refine ⟨[], .folder entries none, rfl, trivial, trivial, ?_⟩
          rw [ok_mem_metAt_iff, List.append_nil]
        · refine ⟨name :: below, target, ?_, ⟨hstat, hopens⟩, hkeeps, hmet⟩
          rw [Node.listed?, hname]
          exact hlisted
      · rintro ⟨below, target, hlisted, hopens, hkeeps, hmet⟩
        cases below with
        | nil =>
          cases hlisted
          rw [List.append_nil, metAt, hclosed] at hmet
          exact Or.inl (List.mem_singleton.mp hmet)
        | cons name below =>
          rw [Node.listed?, Option.bind_eq_some_iff] at hlisted
          obtain ⟨node, hname, hlisted⟩ := hlisted
          exact Or.inr ⟨name, below, node, target, hname, hlisted, hopens.2, hkeeps, hmet⟩

theorem mem_visitAll_iff (walk : Walk) (scope : Scope) (names : List Bytes) (met : Except Text (List Bytes)) :
    ∀ entries : Folder, entries.Proper → (met ∈ walk.visitAll scope names entries ↔ ∃ name below node target,
      entries.find? name = some node ∧ node.listed? below = some target ∧
      walk.Opens scope.path (names ++ [name]) below ∧ walk.Keeps scope names target.isFolder (name :: below) ∧
      met ∈ walk.metAt scope.path (names ++ name :: below) target)
  | .empty, _ => by
    refine ⟨fun hmem => absurd hmem List.not_mem_nil, ?_⟩
    rintro ⟨name, below, node, target, hname, -⟩
    cases hname
  | .entry name node rest, h => by
    obtain ⟨-, hnew, hnode, hrest⟩ := h
    rw [visitAll, List.mem_append, mem_visitAll_iff walk scope names met rest hrest]
    constructor
    · rintro (hmem | ⟨next, below, child, target, hnext, hrest⟩)
      · split at hmem
        · exact absurd hmem List.not_mem_nil
        · rename_i hskips
          obtain ⟨below, target, hlisted, hopens, hkeeps, hmet⟩ :=
            (mem_visit_iff walk scope (names ++ [name]) met node hnode).mp hmem
          rw [Node.isFolder_of_find? (Node.find?_of_listed? hlisted), Bool.not_eq_true] at hskips
          rw [List.append_assoc, List.singleton_append] at hmet
          exact ⟨name, below, node, target, if_pos rfl, hlisted, hopens, ⟨hskips, hkeeps⟩, hmet⟩
      · have hne : next ≠ name := fun he => by
          rw [he, hnew] at hnext
          cases hnext
        exact ⟨next, below, child, target, by rw [Folder.find?, if_neg hne, hnext], hrest⟩
    · rintro ⟨next, below, child, target, hnext, hlisted, hopens, ⟨hskips, hkeeps⟩, hmet⟩
      rw [Folder.find?] at hnext
      split at hnext
      · rename_i he
        cases hnext
        subst he
        refine Or.inl ?_
        rw [Node.isFolder_of_find? (Node.find?_of_listed? hlisted), hskips, if_neg Bool.false_ne_true,
          mem_visit_iff walk scope (names ++ [next]) met node hnode]
        rw [List.append_cons] at hmet
        exact ⟨below, target, hlisted, hopens, hkeeps, hmet⟩
      · exact Or.inr ⟨next, below, child, target, hnext, hlisted, hopens, ⟨hskips, hkeeps⟩, hmet⟩

end

theorem mem_entriesOf_iff {mets : List (Except Text (List Bytes))} : other ∈ entriesOf mets ↔ .ok other ∈ mets := by
  rw [entriesOf, List.mem_filterMap]
  constructor
  · rintro ⟨met, hmem, hmet⟩
    cases met with
    | error => cases hmet
    | ok names =>
      cases hmet
      exact hmem
  · exact fun hmem => ⟨_, hmem, rfl⟩

theorem mem_faultsOf_iff {mets : List (Except Text (List Bytes))} {message : Text} :
    message ∈ faultsOf mets ↔ .error message ∈ mets := by
  rw [faultsOf, List.mem_filterMap]
  constructor
  · rintro ⟨met, hmem, hmet⟩
    cases met with
    | ok => cases hmet
    | error message =>
      cases hmet
      exact hmem
  · exact fun hmem => ⟨_, hmem, rfl⟩

theorem entriesOf_cons_ok (names : List Bytes) (mets : List (Except Text (List Bytes))) :
    entriesOf (.ok names :: mets) = names :: entriesOf mets := rfl

theorem entriesOf_append (a b : List (Except Text (List Bytes))) : entriesOf (a ++ b) = entriesOf a ++ entriesOf b :=
  List.filterMap_append

mutual

theorem nodup_visit (walk : Walk) (scope : Scope) (names : List Bytes) : ∀ node : Node, node.Proper →
    (entriesOf (walk.visit scope names node)).Nodup
  | .file _, _ => List.nodup_singleton names
  | .locked _, _ => List.nodup_singleton names
  | .special _, _ => List.nodup_singleton names
  | .link _, _ => List.nodup_singleton names
  | .folder entries refusal, h => by
    rw [visit, entriesOf_cons_ok, List.nodup_cons]
    split
    · exact ⟨List.not_mem_nil, List.nodup_nil⟩
    · refine ⟨fun hmem => ?_, nodup_visitAll walk _ names entries h⟩
      obtain ⟨name, below, node, target, -, -, -, -, hmet⟩ :=
        (mem_visitAll_iff walk _ names _ entries h).mp (mem_entriesOf_iff.mp hmem)
      simpa using ok_mem_metAt_iff.mp hmet

theorem nodup_visitAll (walk : Walk) (scope : Scope) (names : List Bytes) : ∀ entries : Folder, entries.Proper →
    (entriesOf (walk.visitAll scope names entries)).Nodup
  | .empty, _ => List.nodup_nil
  | .entry name node rest, h => by
    obtain ⟨-, hnew, hnode, hrest⟩ := h
    rw [visitAll, entriesOf_append, List.nodup_append]
    refine ⟨?_, nodup_visitAll walk scope names rest hrest, ?_⟩
    · split
      · exact List.nodup_nil
      · exact nodup_visit walk scope _ node hnode
    · -- What is met at the first entry goes on with its name, what is met at the others with a name of theirs.
      rintro first hfirst other hother rfl
      rw [mem_entriesOf_iff] at hfirst hother
      split at hfirst
      · exact List.not_mem_nil hfirst
      · obtain ⟨below, _, -, -, -, hbelow⟩ := (mem_visit_iff walk scope _ _ node hnode).mp hfirst
        obtain ⟨next, after, child, _, hnext, -, -, -, hafter⟩ :=
          (mem_visitAll_iff walk scope names _ rest hrest).mp hother
        rw [ok_mem_metAt_iff] at hbelow hafter
        rw [hbelow, List.append_assoc, List.append_cancel_left_eq, List.singleton_append, List.cons.injEq] at hafter
        rw [← hafter.1, hnew] at hnext
        cases hnext

end

/-! ### The files in order -/

theorem mem_below_iff (h : node.Proper) : names ∈ walk.below scope node ↔
    walk.tree.hasFile walk.working (pathOf scope.path names) = true ∧ ∃ target, node.listed? names = some target ∧
      walk.Opens scope.path [] names ∧ walk.Keeps (walk.enter scope []) [] target.isFolder names := by
  rw [below, (Sorted.sort_perm _ _).mem_iff, filesOf, List.mem_filter, mem_entriesOf_iff,
    mem_visit_iff walk scope [] _ node h, and_comm]
  refine and_congr_right fun _ => ?_
  constructor
  · rintro ⟨below, target, hlisted, hopens, hkeeps, hmet⟩
    rw [ok_mem_metAt_iff, List.nil_append] at hmet
    exact hmet ▸ ⟨target, hlisted, hopens, hkeeps⟩
  · rintro ⟨target, hlisted, hopens, hkeeps⟩
    exact ⟨names, target, hlisted, hopens, hkeeps, ok_mem_metAt_iff.mpr rfl⟩

theorem nodup_below (h : node.Proper) : (walk.below scope node).Nodup := by
  rw [below, (Sorted.sort_perm _ _).nodup_iff]
  exact (nodup_visit walk scope [] node h).filter _

theorem pairwise_below (walk : Walk) (scope : Scope) (node : Node) : (walk.below scope node).Pairwise (· ≤ ·) := by
  have hsorted : (walk.below scope node).Pairwise fun a b => decide (a ≤ b) = true :=
    Sorted.pairwise_sort (fun a b => by simpa using List.le_total a b) (fun a b c => by simpa using List.le_trans) _
  exact hsorted.imp of_decide_eq_true

theorem isPlain_of_mem_below (h : node.Proper) (hmem : names ∈ walk.below scope node) :
    ∀ name ∈ names, Path.IsPlain name := by
  obtain ⟨-, target, hlisted, -⟩ := (mem_below_iff h).mp hmem
  have hnames := (Node.proper_of_find? h (Node.find?_of_listed? hlisted)).1
  exact fun name hname => (hnames name hname).isPlain

/-- What a walk comes to from a root that leads to an entry. -/
theorem run_eq (hlocate : walk.tree.locate walk.working root = .ok location)
    (hfind : walk.tree.find? location = some node) : walk.run root = walk.runAt root location node := by
  rw [run, hlocate]
  dsimp only
  rw [hfind]

/-- What a walk comes to from a root that leads to where nothing stands. -/
theorem run_missing (hlocate : walk.tree.locate walk.working root = .ok location)
    (hfind : walk.tree.find? location = none) : walk.run root = ⟨[], [complaint (fault root .notFound)]⟩ := by
  rw [run, hlocate]
  dsimp only
  rw [hfind]

/-- The project file that names lead to from a root. -/
def fileAt? (root : Bytes) (names : List Bytes) : Option ProjectFile :=
  (ProjectFile.ofPath? root (pathOf root names)).filter fun file => file.isEditable || file.isIndexable

theorem fileAt?_eq_some_iff {root : Bytes} {file : ProjectFile} : fileAt? root names = some file ↔
    ProjectFile.ofPath? root (pathOf root names) = some file ∧ (file.isEditable || file.isIndexable) = true := by
  rw [fileAt?, Option.filter_eq_some_iff]

theorem path_of_fileAt? {root : Bytes} {file : ProjectFile} (h : fileAt? root names = some file) :
    file.path = pathOf root names := by
  obtain ⟨components, extension, -, -, rfl⟩ := ProjectFile.ofPath?_eq_some_iff.mp (fileAt?_eq_some_iff.mp h).1
  rfl

theorem projectFiles_map (root : Bytes) (walked : List (List Bytes)) (complaints : List Text) :
    projectFiles root ⟨walked.map (pathOf root), complaints⟩ = walked.filterMap (fileAt? root) := by
  rw [projectFiles, List.filterMap_map, List.filter_filterMap]
  rfl

theorem ofPath?_of_mem_projectFiles {root : Bytes} {walked : Walked} {file : ProjectFile}
    (h : file ∈ projectFiles root walked) : ProjectFile.ofPath? root file.path = some file := by
  obtain ⟨path, -, hfile⟩ := List.mem_filterMap.mp (List.mem_filter.mp h).1
  obtain ⟨components, extension, hcomponents, hextension, rfl⟩ := ProjectFile.ofPath?_eq_some_iff.mp hfile
  exact hfile

/-- A walk comes to files with different components below its root. -/
theorem pairwise_projectFiles (h : walk.tree.Proper) (root : Bytes) :
    (projectFiles root (walk.run root)).Pairwise fun file other =>
      Path.below? root file.path ≠ Path.below? root other.path := by
  rw [run]
  split
  · exact .nil
  · split
    · rename_i node hnode
      have hproper : node.Proper := (Node.proper_of_find? h hnode).2
      rw [runAt, projectFiles_map, List.pairwise_filterMap]
      refine (nodup_below hproper).imp_of_mem fun {names other} hnames hother hne file hfile otherFile hotherFile => ?_
      rw [path_of_fileAt? hfile, path_of_fileAt? hotherFile,
        Path.below?_pathOf _ (isPlain_of_mem_below hproper hnames),
        Path.below?_pathOf _ (isPlain_of_mem_below hproper hother)]
      intro he
      have hinjective : Function.Injective Path.Component.name := fun _ _ => Path.Component.name.inj
      exact hne (List.map_injective_iff.mpr hinjective (Option.some.inj he))
    · exact .nil

end Walk
end Relink

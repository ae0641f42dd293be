import Relink.Proofs.Walking
import Relink.Proofs.Writing

/-! # Going down from a root

Where folders lead down from a root to an entry, the path of the entry leads there as well, unless it is too long. So
a walk can open the folders on the way to a file by their paths, which are shorter than the file's, and what it comes
to is settled by the entries that can be listed and by the path of each file. -/

namespace Relink

namespace Node
variable {tree node target : Node} {entries : Folder} {refusal : Option Text} {links left : Nat}
  {here location working : Location} {parts a b names : List Bytes} {path name : Bytes}

theorem Way.split (h : Way tree links here parts location left) (hparts : parts = a ++ b) : ∃ middle rest,
    Way tree links here a middle rest ∧ Way tree rest middle b location left := by
  induction h generalizing a with
  | refl =>
    obtain ⟨rfl, rfl⟩ := List.append_eq_nil_iff.mp hparts.symm
    exact ⟨_, _, .refl, .refl⟩
  | @stay links left here location part parts entries refusal hhere hpart hrest ih =>
    cases a with
    | nil =>
      cases hparts
      exact ⟨_, _, .refl, .stay hhere hpart hrest⟩
    | cons first a =>
      obtain ⟨rfl, rfl⟩ := List.cons.inj hparts
      obtain ⟨middle, rest, hfirst, hsecond⟩ := ih rfl
      exact ⟨middle, rest, .stay hhere hpart hfirst, hsecond⟩
  | @above links left here location parts entries refusal hhere hrest ih =>
    cases a with
    | nil =>
      cases hparts
      exact ⟨_, _, .refl, .above hhere hrest⟩
    | cons first a =>
      obtain ⟨rfl, rfl⟩ := List.cons.inj hparts
      obtain ⟨middle, rest, hfirst, hsecond⟩ := ih rfl
      exact ⟨middle, rest, .above hhere hfirst, hsecond⟩
  | @link links left here location part goal parts entries refusal hhere hname hlink hrest ih =>
    cases a with
    | nil =>
      cases hparts
      exact ⟨_, _, .refl, .link hhere hname hlink hrest⟩
    | cons first a =>
      obtain ⟨rfl, rfl⟩ := List.cons.inj hparts
      obtain ⟨middle, rest, hfirst, hsecond⟩ := ih (List.append_assoc _ _ _).symm
      exact ⟨middle, rest, .link hhere hname hlink hfirst, hsecond⟩
  | @entry links left here location part parts entries refusal node hhere hname hentry hnode hrest ih =>
    cases a with
    | nil =>
      cases hparts
      exact ⟨_, _, .refl, .entry hhere hname hentry hnode hrest⟩
    | cons first a =>
      obtain ⟨rfl, rfl⟩ := List.cons.inj hparts
      obtain ⟨middle, rest, hfirst, hsecond⟩ := ih rfl
      exact ⟨middle, rest, .entry hhere hname hentry hnode hfirst, hsecond⟩

/-- A slash at the end of a path leads no further. -/
theorem Way.dropEnd (h : Way tree links here (parts ++ [[]]) location left) :
    Way tree links here parts location left := by
  obtain ⟨middle, rest, hparts, hend⟩ := h.split rfl
  cases hend with
  | stay _ _ hrest =>
    cases hrest
    exact hparts
  | link _ hname => exact absurd rfl hname.1
  | entry _ hname => exact absurd rfl hname.1

theorem refuse?_eq_none_iff : refuse? path = none ↔ 0 ∉ path ∧ path ≠ [] ∧ path.length ≤ pathLimit := by
  rw [refuse?]
  split
  · simp [*]
  · split
    · simp [*]
    · split <;> simp [*]
      omega

/-- What a path leads to is where its parts lead. -/
theorem locate_eq_ok_iff : tree.locate working path = .ok location ↔
    refuse? path = none ∧ ∃ left, Way tree linkLimit (start working path) (splitAt Path.slash path) location left := by
  rw [locate]
  split
  · rename_i error herror
    simp [herror]
  · rename_i hrefuse
    rw [and_iff_right hrefuse]
    constructor
    · intro h
      cases hfollow : tree.follow linkLimit (start working path) (splitAt Path.slash path) with
      | error error =>
        rw [hfollow] at h
        cases h
      | ok found =>
        obtain ⟨found, left⟩ := found
        rw [hfollow] at h
        cases h
        exact ⟨left, way_of_follow hfollow⟩
    · rintro ⟨left, hway⟩
      rw [hway.follow]
      rfl

theorem length_le_of_locate (h : tree.locate working path = .ok location) : path.length ≤ pathLimit :=
  (refuse?_eq_none_iff.mp (locate_eq_ok_iff.mp h).1).2.2

theorem length_le_of_hasFile (h : tree.hasFile working path = true) : path.length ≤ pathLimit := by
  rw [hasFile, stat] at h
  cases hlocate : tree.locate working path with
  | error error =>
    rw [hlocate] at h
    cases h
  | ok location => exact length_le_of_locate hlocate

theorem stat_eq (hlocate : tree.locate working path = .ok location) (hfind : tree.find? location = some node) :
    tree.stat working path = .ok node := by
  rw [stat, hlocate]
  simp only [bind, Except.bind, hfind]

theorem hasFile_absolute (names : List Bytes) {content : Bytes} (hrefuse : refuse? path = none)
    (hhead : path.head? = some Path.slash) (hparts : splitAt Path.slash path = [] :: names)
    (hnames : ∀ name ∈ names, IsName name) (hfind : (folder entries refusal).find? names = some (.file content)) :
    (folder entries refusal).hasFile working path = true := by
  rw [hasFile, stat_eq (locate_absolute hrefuse hhead hparts hnames hfind fun _ => Node.noConfusion) hfind]
  rfl

/-! ### One entry further -/

theorem join_eq (hname : IsEntryName name) : Path.join path name =
    if path = [] ∨ path.getLast? = some Path.slash then path ++ name else path ++ Path.slash :: name := by
  have hrelative : name.head? ≠ some Path.slash := fun hhead => hname.2.1 (List.mem_of_mem_head? hhead)
  rw [Path.join, if_neg hrelative]

theorem length_le_join (hname : IsEntryName name) : path.length ≤ (Path.join path name).length := by
  rw [join_eq hname]
  split <;> simp

/-- The path of an entry in the folder that a path leads to leads to the entry. -/
theorem locate_join (hlocate : tree.locate working path = .ok location)
    (hfind : tree.find? location = some (folder entries refusal)) (hname : IsEntryName name)
    (hentry : entries.find? name = some node) (hnode : ∀ goal, node ≠ link goal)
    (hshort : (Path.join path name).length ≤ pathLimit) :
    tree.locate working (Path.join path name) = .ok (location ++ [name]) := by
  obtain ⟨hrefuse, left, hway⟩ := locate_eq_ok_iff.mp hlocate
  obtain ⟨hzero, hne, -⟩ := refuse?_eq_none_iff.mp hrefuse
  have hstep : Way tree left location [name] (location ++ [name]) left := .entry hfind hname.1 hentry hnode .refl
  have hjoin : Path.join path name = _ := join_eq hname
  rw [locate_eq_ok_iff, refuse?_eq_none_iff]
  refine ⟨⟨?_, ?_, hshort⟩, left, ?_⟩
  · rw [hjoin]
    split <;> simp [hzero, hname.2.2, Path.slash]
  · rw [hjoin]
    split <;> simp [hne]
  · have hstart : start working (Path.join path name) = start working path := by
      rw [start, start, hjoin]
      split <;> rw [List.head?_append_of_ne_nil _ hne]
    rw [hstart, hjoin]
    split
    · rename_i hend
      obtain ⟨above, rfl⟩ := List.getLast?_eq_some_iff.mp (hend.resolve_left hne)
      rw [splitAt_append_separator, splitAt] at hway
      rw [List.append_assoc, List.singleton_append, splitAt_append_separator, splitAt_of_notMem hname.2.1]
      exact hway.dropEnd.append hstep
    · rw [splitAt_append_separator, splitAt_of_notMem hname.2.1]
      exact hway.append hstep

theorem ne_link_of_find? (h : node.find? names = some target) (htarget : ∀ goal, target ≠ link goal) (goal : Bytes) :
    node ≠ link goal := by
  rintro rfl
  cases names with
  | nil =>
    rw [find?] at h
    exact htarget goal (Option.some.inj h).symm
  | cons => cases h

/-! ### Down to an entry -/

theorem length_le_pathOf (hnames : ∀ name ∈ names, IsEntryName name) (path : Bytes) :
    path.length ≤ (Walk.pathOf path names).length := by
  induction names generalizing path with
  | nil => exact Nat.le_refl _
  | cons name names ih =>
    obtain ⟨hname, hnames⟩ := List.forall_mem_cons.mp hnames
    exact Nat.le_trans (length_le_join hname) (ih hnames _)

/-- The path of an entry leads to where names lead from the folder of its root. -/
theorem locate_below (hproper : tree.Proper) (hlocate : tree.locate working path = .ok location)
    (hfind : tree.find? location = some node) (hbelow : node.find? names = some target)
    (htarget : ∀ goal, target ≠ link goal) (hshort : (Walk.pathOf path names).length ≤ pathLimit) :
    tree.locate working (Walk.pathOf path names) = .ok (location ++ names) := by
  induction names generalizing path location node with
  | nil => rwa [List.append_nil]
  | cons name names ih =>
    obtain ⟨entries, refusal, child, rfl, hchild, hrest⟩ := exists_child hbelow
    obtain ⟨hname, hnames⟩ := List.forall_mem_cons.mp
      (proper_of_find? (proper_of_find? hproper hfind).2 hbelow).1
    have hjoin := locate_join hlocate hfind hname hchild (ne_link_of_find? hrest htarget)
      (Nat.le_trans (length_le_pathOf hnames _) hshort)
    rw [List.append_cons]
    exact ih hjoin ((find?_child hfind name).trans hchild) hrest hshort

end Node

namespace Walk
variable {walk : Walk} {node target : Node} {location : Location} {root : Bytes} {names above below : List Bytes}

theorem pathOf_append (root : Bytes) (above below : List Bytes) :
    pathOf root (above ++ below) = pathOf (pathOf root above) below := List.foldl_append

theorem opens_of_locate (hproper : walk.tree.Proper)
    (hlocate : walk.tree.locate walk.working (pathOf root above) = .ok location)
    (hfind : walk.tree.find? location = some node) (hbelow : node.find? below = some target)
    (hshort : (pathOf root (above ++ below)).length ≤ pathLimit) : walk.Opens root above below := by
  induction below generalizing above location node with
  | nil => trivial
  | cons name below ih =>
    refine ⟨⟨node, Node.stat_eq hlocate hfind⟩, ?_⟩
    cases below with
    | nil => trivial
    | cons next below =>
      obtain ⟨entries, refusal, child, rfl, hchild, hrest⟩ := Node.exists_child hbelow
      obtain ⟨hname, hnames⟩ := List.forall_mem_cons.mp
        (Node.proper_of_find? (Node.proper_of_find? hproper hfind).2 hbelow).1
      have hfolder : ∀ goal, child ≠ .link goal := by
        rintro goal rfl
        cases hrest
      have hstep : pathOf root (above ++ [name]) = Path.join (pathOf root above) name := pathOf_append _ _ _
      rw [List.append_cons] at hshort
      refine ih ?_ ((Node.find?_child hfind name).trans hchild) hrest hshort
      rw [pathOf_append, hstep] at hshort
      rw [hstep]
      exact Node.locate_join hlocate hfind hname hchild hfolder
        (Nat.le_trans (Node.length_le_pathOf hnames _) hshort)

/-- What names lead to is no folder when its path leads to a file. -/
theorem isFolder_of_hasFile (hproper : walk.tree.Proper) (hlocate : walk.tree.locate walk.working root = .ok location)
    (hfind : walk.tree.find? location = some node) (hbelow : node.find? names = some target)
    (hfile : walk.tree.hasFile walk.working (pathOf root names) = true) : target.isFolder = false := by
  cases target with
  | folder entries refusal =>
    have hleads := Node.locate_below hproper hlocate hfind hbelow (fun _ => Node.noConfusion)
      (Node.length_le_of_hasFile hfile)
    have hsame : walk.tree.find? (location ++ names) = some (.folder entries refusal) := by
      rw [Node.find?_append, hfind]
      exact hbelow
    rw [Node.hasFile, Node.stat_eq hleads hsame] at hfile
    cases hfile
  | _ => rfl

/-- A walk from a root comes to the entries that folders lead to which can be listed, if no rule leaves them out and
    their path leads to a file. -/
theorem mem_below_scopeAt_iff (hproper : walk.tree.Proper)
    (hlocate : walk.tree.locate walk.working root = .ok location) (hfind : walk.tree.find? location = some node) :
    names ∈ walk.below (walk.scopeAt root location node) node ↔
      walk.tree.hasFile walk.working (pathOf root names) = true ∧ (node.listed? names).isSome = true ∧
        walk.Keeps (walk.enter (walk.scopeAt root location node) []) [] false names := by
  rw [mem_below_iff (Node.proper_of_find? hproper hfind).2]
  refine and_congr_right fun hfile => ?_
  rw [Option.isSome_iff_exists, exists_and_right.symm]
  refine exists_congr fun target => and_congr_right fun hlisted => ?_
  have hbelow := Node.find?_of_listed? hlisted
  rw [isFolder_of_hasFile hproper hlocate hfind hbelow hfile]
  exact and_iff_right (opens_of_locate hproper hlocate hfind hbelow (Node.length_le_of_hasFile hfile))

end Walk
end Relink

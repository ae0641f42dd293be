import Relink.FileTree.Access

/-! # Reaching files without links

Where no link stands on the way, an absolute path leads to the location that its parts name. -/

namespace Relink.Node

/-- A name that an entry of a folder can have. -/
def IsName (part : Bytes) : Prop :=
  part ≠ [] ∧ part ≠ [Path.dot] ∧ part ≠ [Path.dot, Path.dot] ∧ part.length ≤ nameLimit

instance (part : Bytes) : Decidable (IsName part) := inferInstanceAs (Decidable (_ ∧ _ ∧ _ ∧ _))

variable {tree node : Node} {entries others : Folder} {refusal othersRefusal : Option Text} {links : Nat}
  {here working : Location} {names : List Bytes} {path name content : Bytes}

theorem find?_append (tree : Node) (a b : Location) : tree.find? (a ++ b) = (tree.find? a).bind (·.find? b) := by
  induction a generalizing tree with
  | nil => rfl
  | cons name a ih =>
    cases tree with
    | folder entries refusal =>
      rw [List.cons_append, find?, find?]
      cases entries.find? name with
      | none => rfl
      | some node => exact ih node
    | _ => rfl

/-- Names that lead to an entry which is no link are followed to it. -/
theorem follow_names (hnames : ∀ name ∈ names, IsName name) (hfind : tree.find? (here ++ names) = some node)
    (hnode : ∀ target, node ≠ .link target) : tree.follow links here names = .ok (here ++ names, links) := by
  induction names generalizing here with
  | nil => rw [follow, List.append_nil]
  | cons name names ih =>
    obtain ⟨hempty, hdot, hdots, hlength⟩ := hnames name List.mem_cons_self
    have hrest : tree.follow links (here ++ [name]) names = .ok (here ++ [name] ++ names, links) :=
      ih (fun other hother => hnames other (List.mem_cons_of_mem _ hother)) (by rwa [List.append_assoc])
    rw [find?_append, Option.bind_eq_some_iff] at hfind
    obtain ⟨folder, hhere, hfolder⟩ := hfind
    cases folder with
    | folder entries refusal =>
      rw [find?, Option.bind_eq_some_iff] at hfolder
      obtain ⟨child, hchild, hbelow⟩ := hfolder
      rw [follow, hhere]
      simp only [hempty, hdot, hdots, or_self, ↓reduceIte, Nat.not_lt.mpr hlength, hchild]
      cases child with
      | link target =>
        -- A link has nothing below it, so it would be the entry itself.
        cases names with
        | nil => exact absurd (Option.some.inj hbelow).symm (hnode target)
        | cons => cases hbelow
      | _ => rw [hrest, List.append_assoc]; rfl
    | _ => cases hfolder

theorem follow_root (parts : List Bytes) :
    (folder entries refusal).follow links [] ([] :: parts) = (folder entries refusal).follow links [] parts := by
  rw [follow]
  simp only [find?, true_or, ↓reduceIte]

theorem locate_absolute (hrefuse : refuse? path = none) (hhead : path.head? = some Path.slash)
    (hparts : splitAt Path.slash path = [] :: names) (hnames : ∀ name ∈ names, IsName name)
    (hfind : (folder entries refusal).find? names = some node) (hnode : ∀ target, node ≠ .link target) :
    (folder entries refusal).locate working path = .ok names := by
  have hstart : start working path = [] := by rw [start, if_pos hhead]
  rw [locate, hrefuse, hstart, hparts, follow_root, follow_names hnames hfind hnode]
  rfl

theorem read_absolute (names : List Bytes) (hrefuse : refuse? path = none)
    (hhead : path.head? = some Path.slash) (hparts : splitAt Path.slash path = [] :: names)
    (hnames : ∀ name ∈ names, IsName name) (hfind : (folder entries refusal).find? names = some (.file content)) :
    (folder entries refusal).read working path = .ok content := by
  have hlocate : (folder entries refusal).locate working path = .ok names :=
    locate_absolute hrefuse hhead hparts hnames hfind fun _ => Node.noConfusion
  rw [read, stat, hlocate]
  simp only [bind, Except.bind, hfind]

/-- A new file is written to the folder that the path before its name leads to. -/
theorem destination_absolute (hrefuse : refuse? path = none) (hhead : path.head? = some Path.slash)
    (hparts : partsOf path = ([] :: names, name)) (hnames : ∀ name ∈ names, IsName name) (hname : IsName name)
    (hfind : (folder entries refusal).find? names = some (.folder others othersRefusal))
    (hnew : others.find? name = none) :
    (folder entries refusal).destination working path = .ok (names ++ [name]) := by
  obtain ⟨hempty, hdot, hdots, hlength⟩ := hname
  have hstart : start working path = [] := by rw [start, if_pos hhead]
  have hfollow : (folder entries refusal).follow linkLimit (start working path) (partsOf path).1 =
      .ok (names, linkLimit) := by
    rw [hstart, hparts, follow_root, follow_names hnames hfind fun _ => Node.noConfusion, List.nil_append]
  rw [destination, hrefuse]
  dsimp only
  rw [destinationWithin]
  dsimp only
  split
  · rename_i hfail
    rw [hfollow] at hfail
    cases hfail
  · rename_i hok
    rw [hfollow] at hok
    cases hok
    simp only [hfind, hparts, hempty, hdot, hdots, or_self, ↓reduceIte, Nat.not_lt.mpr hlength, hnew]

end Relink.Node

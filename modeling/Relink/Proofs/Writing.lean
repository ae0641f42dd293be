import Mathlib.Data.List.Basic
import Relink.Proofs.Parts
import Relink.Proofs.Reaching

/-! # Writing a file

Writing to a path adds a file to a folder that is there, or replaces one in it, and the path leads to that file
afterwards. Every other location has what it had. -/

namespace Relink

/-- The last piece is empty only where the list ends in a separator or is empty itself. -/
theorem eq_nil_or_getLast?_of_splitAt {α : Type} [DecidableEq α] {separator : α} {list : List α}
    (h : (splitAt separator list).getLast? = some []) : list = [] ∨ list.getLast? = some separator := by
  induction list with
  | nil => exact Or.inl rfl
  | cons a list ih =>
    obtain ⟨piece, pieces, hpieces⟩ := List.exists_cons_of_ne_nil (splitAt_ne_nil separator list)
    right
    rw [splitAt] at h
    split at h
    · rename_i ha
      rw [hpieces, List.getLast?_cons_cons, ← hpieces] at h
      rcases ih h with rfl | hlast
      · rw [ha]
        rfl
      · rw [List.getLast?_cons, hlast]
        rfl
    · rw [hpieces] at h ih
      cases pieces with
      | nil => cases h
      | cons other pieces =>
        rw [List.getLast?_cons_cons] at h ih
        rcases ih h with rfl | hlast
        · cases hpieces
        · rw [List.getLast?_cons, hlast]
          rfl

namespace Folder

theorem find?_set_self (name : Bytes) (new : Node) : ∀ entries : Folder, (entries.set name new).find? name = some new
  | .empty => by simp [set, find?]
  | .entry other node rest => by
    by_cases h : name = other
    · simp [set, find?, h]
    · simp [set, find?, h, find?_set_self name new rest]

theorem find?_set_of_ne {name other : Bytes} (new : Node) (h : other ≠ name) :
    ∀ entries : Folder, (entries.set name new).find? other = entries.find? other
  | .empty => by simp [set, find?, h]
  | .entry this node rest => by
    by_cases hname : name = this
    · simp [set, find?, hname, hname ▸ h]
    · simp [set, find?, hname, find?_set_of_ne new h rest]

end Folder

namespace Node
variable {tree new node : Node} {entries : Folder} {refusal : Option Text} {links left : Nat}
  {here location destination working : Location} {parts : List Bytes} {path name last content : Bytes}

/-! ### One entry of a tree -/

/-- The entry without what a folder holds. -/
def shallow : Node → Node
  | folder _ refusal => folder .empty refusal
  | node => node

theorem find?_child (h : tree.find? here = some (folder entries refusal)) (name : Bytes) :
    tree.find? (here ++ [name]) = entries.find? name := by
  rw [find?_append, h, Option.bind_some, find?]
  cases entries.find? name <;> rfl

theorem put_cons (entries : Folder) (refusal : Option Text) (names : Location) (node : Node) :
    (folder entries refusal).put (name :: names) node =
      folder (entries.set name (((entries.find? name).getD bare).put names node)) refusal := by
  rw [put]

theorem exists_child (h : tree.find? (name :: here) = some node) : ∃ entries refusal child,
    tree = folder entries refusal ∧ entries.find? name = some child ∧ child.find? here = some node := by
  cases tree with
  | folder entries refusal =>
    rw [find?, Option.bind_eq_some_iff] at h
    obtain ⟨child, hchild, hbelow⟩ := h
    exact ⟨entries, refusal, child, rfl, hchild, hbelow⟩
  | _ => cases h

theorem find?_put_self (h : tree.find? here = some (folder entries refusal)) (name : Bytes) (node : Node) :
    (tree.put (here ++ [name]) node).find? (here ++ [name]) = some node := by
  induction here generalizing tree with
  | nil =>
    cases h
    rw [List.nil_append, put_cons, find?, Folder.find?_set_self, put]
    rfl
  | cons first here ih =>
    obtain ⟨others, _, child, rfl, hchild, hbelow⟩ := exists_child h
    rw [List.cons_append, put_cons, hchild, Option.getD_some, find?, Folder.find?_set_self]
    exact ih hbelow

/-- Only the entry itself changes when a file is put where no folder is. -/
theorem find?_put_of_ne (h : tree.find? here = some (folder entries refusal))
    (hname : ∀ node, entries.find? name = some node → node.isFile = true)
    (hne : location ≠ here ++ [name]) :
    ((tree.put (here ++ [name]) (file content)).find? location).map shallow = (tree.find? location).map shallow := by
  induction here generalizing tree location with
  | nil =>
    cases h
    rw [List.nil_append] at hne ⊢
    rw [put_cons]
    cases location with
    | nil => rfl
    | cons first location =>
      rw [find?, find?]
      by_cases hfirst : first = name
      · subst hfirst
        obtain ⟨second, location, rfl⟩ := List.exists_cons_of_ne_nil fun hnil => hne (congrArg (first :: ·) hnil)
        rw [Folder.find?_set_self, put]
        cases hold : entries.find? first with
        | none => rfl
        | some node =>
          have hfile := hname node hold
          cases node <;> first | rfl | cases hfile
      · rw [Folder.find?_set_of_ne _ hfirst]
  | cons first here ih =>
    obtain ⟨others, _, child, rfl, hchild, hbelow⟩ := exists_child h
    rw [List.cons_append, put_cons, hchild, Option.getD_some]
    cases location with
    | nil => rfl
    | cons second location =>
      rw [find?, find?]
      by_cases hsecond : second = first
      · subst hsecond
        rw [Folder.find?_set_self, hchild]
        exact ih hbelow fun hsame => hne (congrArg (second :: ·) hsame)
      · rw [Folder.find?_set_of_ne _ hsecond]

/-- A tree that has a file at a location, where no other entry was, and all else of another one. -/
structure Gains (tree : Node) (location : Location) (content : Bytes) (new : Node) : Prop where
  others : ∀ other, other ≠ location → (new.find? other).map shallow = (tree.find? other).map shallow
  before : ∀ node, tree.find? location = some node → node.isFile = true
  after : new.find? location = some (file content)

theorem gains_put (h : tree.find? here = some (folder entries refusal))
    (hname : ∀ node, entries.find? name = some node → node.isFile = true) (content : Bytes) :
    tree.Gains (here ++ [name]) content (tree.put (here ++ [name]) (file content)) where
  others _ hne := find?_put_of_ne h hname hne
  before node hnode := by
    rw [find?_child h] at hnode
    exact hname node hnode
  after := find?_put_self h name _

namespace Gains

theorem exists_shallow (h : tree.Gains location content new) (hfind : tree.find? here = some node)
    (hnode : node.isFile = false) : ∃ other, new.find? here = some other ∧ other.shallow = node.shallow := by
  have hne : here ≠ location := by
    rintro rfl
    rw [h.before node hfind] at hnode
    cases hnode
  have hsame := h.others here hne
  rwa [hfind, Option.map_some, Option.map_eq_some_iff] at hsame

theorem find?_folder (h : tree.Gains location content new) (hfolder : tree.find? here = some (folder entries refusal)) :
    ∃ others, new.find? here = some (folder others refusal) := by
  obtain ⟨node, hnode, hshallow⟩ := h.exists_shallow hfolder rfl
  cases node <;> cases hshallow
  exact ⟨_, hnode⟩

theorem find?_link (h : tree.Gains location content new) {target : Bytes}
    (hlink : tree.find? here = some (link target)) : new.find? here = some (link target) := by
  obtain ⟨node, hnode, hshallow⟩ := h.exists_shallow hlink rfl
  cases node <;> cases hshallow
  exact hnode

end Gains

/-! ### Ways through a tree -/

/-- The ways on which the parts of a path lead from one location to another, with the links that may be followed
    before and after. -/
inductive Way (tree : Node) : Nat → Location → List Bytes → Location → Nat → Prop
  | refl {links : Nat} {here : Location} : Way tree links here [] here links
  | stay {links left : Nat} {here location : Location} {part : Bytes} {parts : List Bytes} {entries : Folder}
      {refusal : Option Text} (hhere : tree.find? here = some (folder entries refusal))
      (hpart : part = [] ∨ part = [Path.dot]) (hrest : Way tree links here parts location left) :
      Way tree links here (part :: parts) location left
  | above {links left : Nat} {here location : Location} {parts : List Bytes} {entries : Folder}
      {refusal : Option Text} (hhere : tree.find? here = some (folder entries refusal))
      (hrest : Way tree links here.dropLast parts location left) :
      Way tree links here ([Path.dot, Path.dot] :: parts) location left
  | link {links left : Nat} {here location : Location} {part target : Bytes} {parts : List Bytes} {entries : Folder}
      {refusal : Option Text} (hhere : tree.find? here = some (folder entries refusal)) (hname : IsName part)
      (hlink : entries.find? part = some (link target))
      (hrest : Way tree links (start here target) (splitAt Path.slash target ++ parts) location left) :
      Way tree (links + 1) here (part :: parts) location left
  | entry {links left : Nat} {here location : Location} {part : Bytes} {parts : List Bytes} {entries : Folder}
      {refusal : Option Text} {node : Node} (hhere : tree.find? here = some (folder entries refusal))
      (hname : IsName part) (hentry : entries.find? part = some node) (hnode : ∀ target, node ≠ link target)
      (hrest : Way tree links (here ++ [part]) parts location left) : Way tree links here (part :: parts) location left

theorem way_of_follow (h : tree.follow links here parts = .ok (location, left)) :
    Way tree links here parts location left := by
  fun_induction follow tree links here parts with
  | case1 =>
    cases h
    exact .refl
  | case2 links here part parts entries refusal hhere hpart ih => exact .stay hhere hpart (ih h)
  | case3 links here parts entries refusal hhere hpart ih => exact .above hhere (ih h)
  | case7 here part parts entries refusal hhere hpart hdots hlength target hlink links start ih =>
    obtain ⟨hempty, hdot⟩ := not_or.mp hpart
    exact .link hhere ⟨hempty, hdot, hdots, Nat.le_of_not_lt hlength⟩ hlink (ih h)
  | case8 links here part parts entries refusal hhere hpart hdots hlength node hnode hentry ih =>
    obtain ⟨hempty, hdot⟩ := not_or.mp hpart
    exact .entry hhere ⟨hempty, hdot, hdots, Nat.le_of_not_lt hlength⟩ hentry hnode (ih h)
  | _ => cases h

theorem Way.follow (h : Way tree links here parts location left) :
    tree.follow links here parts = .ok (location, left) := by
  induction h with
  | refl => rw [Node.follow]
  | stay hhere hpart _ ih => rw [Node.follow, hhere, ← ih]; exact if_pos hpart
  | above hhere _ ih => rw [Node.follow, hhere, ← ih]; rfl
  | link hhere hname hlink _ ih =>
    obtain ⟨hempty, hdot, hdots, hlength⟩ := hname
    rw [Node.follow, hhere]
    simp only [hempty, hdot, hdots, or_self, ↓reduceIte, Nat.not_lt.mpr hlength, hlink]
    exact ih
  | @entry _ _ _ _ _ _ _ _ node hhere hname hentry hnode _ ih =>
    obtain ⟨hempty, hdot, hdots, hlength⟩ := hname
    rw [Node.follow, hhere]
    simp only [hempty, hdot, hdots, or_self, ↓reduceIte, Nat.not_lt.mpr hlength, hentry]
    cases node with
    | link target => exact absurd rfl (hnode target)
    | _ => exact ih

namespace Way

theorem append {middle : Location} {others : List Bytes} {rest : Nat} (h : Way tree links here parts middle left)
    (hothers : Way tree left middle others location rest) :
    Way tree links here (parts ++ others) location rest := by
  induction h with
  | refl => exact hothers
  | stay hhere hpart _ ih => exact .stay hhere hpart (ih hothers)
  | above hhere _ ih => exact .above hhere (ih hothers)
  | link hhere hname hlink _ ih =>
    rw [List.append_assoc] at ih
    exact .link hhere hname hlink (ih hothers)
  | entry hhere hname hentry hnode _ ih => exact .entry hhere hname hentry hnode (ih hothers)

/-- A way to a folder starts from one. -/
theorem exists_folder (h : Way tree links here parts location left)
    (hfolder : tree.find? location = some (folder entries refusal)) :
    ∃ others otherRefusal, tree.find? here = some (folder others otherRefusal) := by
  cases h with
  | refl => exact ⟨entries, refusal, hfolder⟩
  | stay hhere => exact ⟨_, _, hhere⟩
  | above hhere => exact ⟨_, _, hhere⟩
  | link hhere => exact ⟨_, _, hhere⟩
  | entry hhere => exact ⟨_, _, hhere⟩

/-- A way to a folder is there after a file was written. -/
theorem gains (hgains : tree.Gains destination content new) (h : Way tree links here parts location left)
    (hfolder : tree.find? location = some (folder entries refusal)) : Way new links here parts location left := by
  induction h with
  | refl => exact .refl
  | stay hhere hpart _ ih =>
    obtain ⟨others, hothers⟩ := hgains.find?_folder hhere
    exact .stay hothers hpart (ih hfolder)
  | above hhere _ ih =>
    obtain ⟨others, hothers⟩ := hgains.find?_folder hhere
    exact .above hothers (ih hfolder)
  | link hhere hname hlink _ ih =>
    obtain ⟨others, hothers⟩ := hgains.find?_folder hhere
    rw [← find?_child hhere] at hlink
    have hlink := hgains.find?_link hlink
    rw [find?_child hothers] at hlink
    exact .link hothers hname hlink (ih hfolder)
  | entry hhere hname hentry hnode hrest ih =>
    -- The entry is a folder, because the way goes on from it to one; so it is not the file that was written.
    obtain ⟨others, hothers⟩ := hgains.find?_folder hhere
    obtain ⟨inner, _, hinner⟩ := hrest.exists_folder hfolder
    obtain ⟨inner', hinner'⟩ := hgains.find?_folder hinner
    rw [find?_child hothers] at hinner'
    exact .entry hothers hname hinner' (fun _ => Node.noConfusion) (ih hfolder)

end Way

/-! ### The place of a written file -/

/-- The last name of a path stands after its other parts. -/
theorem splitAt_of_partsOf (h : partsOf path = (parts, last)) (hlast : last ≠ []) :
    splitAt Path.slash path = parts ++ [last] := by
  rw [partsOf] at h
  split at h
  · cases h
    exact absurd rfl hlast
  · rename_i found before hfound
    split at h
    · rename_i hslash
      obtain ⟨rfl, rfl⟩ := Prod.mk.inj h
      -- A path that does not end in a slash has no empty part at its end.
      obtain ⟨piece, pieces, hreverse⟩ := List.exists_cons_of_ne_nil
        (List.reverse_eq_nil_iff.not.mpr (splitAt_ne_nil Path.slash path))
      have hpiece : piece ≠ [] := by
        rintro rfl
        have hend : (splitAt Path.slash path).getLast? = some [] := by
          rw [← List.head?_reverse, hreverse]
          rfl
        rcases eq_nil_or_getLast?_of_splitAt hend with rfl | hslash'
        · cases hfound
        · exact hslash hslash'
      rw [hreverse, List.dropWhile_cons_of_neg (by simpa using hpiece)] at hfound
      obtain ⟨rfl, rfl⟩ := List.cons.inj hfound
      rw [← List.reverse_cons, ← hreverse, List.reverse_reverse]
    · split at h
      · cases h
        exact absurd rfl hlast
      · cases h
        exact absurd rfl hlast

/-- A file is written to the folder that the path before its last name leads to, or where a link of that name
    leads. -/
theorem destinationWithin_cases (h : tree.destinationWithin links working path = .ok destination) :
    ∃ parts last here left entries refusal, splitAt Path.slash path = parts ++ [last] ∧
      Way tree links (start working path) parts here left ∧ tree.find? here = some (folder entries refusal) ∧
      IsName last ∧
      (destination = here ++ [last] ∧ (∀ node, entries.find? last = some node → node.isFile = true) ∨
        ∃ target left', entries.find? last = some (link target) ∧ left = left' + 1 ∧
          tree.destinationWithin left' here target = .ok destination) := by
  rw [destinationWithin] at h
  dsimp only at h
  split at h
  · cases h
  · rename_i here left hfollow
    split at h
    · rename_i entries refusal hhere
      split at h
      · cases h
      · rename_i hname
        split at h
        · cases h
        · rename_i hlength
          obtain ⟨hempty, hdot, hdots⟩ : (partsOf path).2 ≠ [] ∧ (partsOf path).2 ≠ [Path.dot] ∧
              (partsOf path).2 ≠ [Path.dot, Path.dot] := by simpa [not_or] using hname
          refine ⟨_, _, here, left, entries, refusal, splitAt_of_partsOf rfl hempty, way_of_follow hfollow, hhere,
            ⟨hempty, hdot, hdots, Nat.le_of_not_lt hlength⟩, ?_⟩
          split at h
          · cases h
          · cases h
          · rename_i target hlink
            split at h
            · cases h
            · exact Or.inr ⟨target, _, hlink, rfl, h⟩
          · rename_i hfolder hspecial hlink
            refine Or.inl ⟨(Except.ok.inj h).symm, fun node hnode => ?_⟩
            cases node with
            | file => rfl
            | locked => rfl
            | folder others refusal => exact absurd hnode (hfolder others refusal)
            | special reason => exact absurd hnode (hspecial reason)
            | link target => exact absurd hnode (hlink target)
    · cases h
    · cases h

/-- A path that a file is written to leads to a name in a folder, with a file of that name or none. -/
theorem exists_parent (h : tree.destinationWithin links working path = .ok destination) :
    ∃ here name entries refusal, destination = here ++ [name] ∧ tree.find? here = some (folder entries refusal) ∧
      ∀ node, entries.find? name = some node → node.isFile = true := by
  induction links using Nat.strongRecOn generalizing working path with
  | ind links ih =>
  obtain ⟨parts, last, here, left, entries, refusal, -, hway, hhere, -, hcases⟩ := destinationWithin_cases h
  rcases hcases with ⟨rfl, hfree⟩ | ⟨target, left', -, rfl, hagain⟩
  · exact ⟨here, last, entries, refusal, rfl, hhere, hfree⟩
  · exact ih left' (links_le_of_follow hway.follow) hagain

/-- After the file was written the path leads to it. -/
theorem exists_way (hgains : tree.Gains destination content new)
    (h : tree.destinationWithin links working path = .ok destination) :
    ∃ left, Way new links (start working path) (splitAt Path.slash path) destination left := by
  -- A link that the path ends in is followed like a path of its own, with fewer links left.
  induction links using Nat.strongRecOn generalizing working path with
  | ind links ih =>
  obtain ⟨parts, last, here, left, entries, refusal, hparts, hway, hhere, hname, hcases⟩ := destinationWithin_cases h
  obtain ⟨others, hothers⟩ := hgains.find?_folder hhere
  have hbefore := hway.gains hgains hhere
  rw [hparts]
  rcases hcases with ⟨rfl, -⟩ | ⟨target, left', hlink, rfl, hagain⟩
  · have hlast : others.find? last = some (file content) := by rw [← find?_child hothers, hgains.after]
    exact ⟨left, hbefore.append (.entry hothers hname hlast (fun _ => Node.noConfusion) .refl)⟩
  · obtain ⟨rest, hrest⟩ := ih left' (links_le_of_follow hway.follow) hagain
    rw [← find?_child hhere] at hlink
    have hlink := hgains.find?_link hlink
    rw [find?_child hothers] at hlink
    rw [← List.append_nil (splitAt Path.slash target)] at hrest
    exact ⟨rest, hbefore.append (.link hothers hname hlink hrest)⟩

theorem write_eq_ok_iff {refuses? : Location → Bytes → Option FileError} :
    tree.write refuses? working path content = .ok new ↔ ∃ destination,
      tree.destination working path = .ok destination ∧ refuses? destination content = none ∧
        new = tree.put destination (file content) := by
  rw [write]
  split
  · rename_i error herror
    simp [herror]
  · rename_i destination hdestination
    split
    · rename_i error herror
      simp [hdestination, herror]
    · rename_i haccepts
      simp [hdestination, haccepts, eq_comm]

/-- Writing adds one file to the tree or replaces one, and the path leads to it afterwards. -/
theorem exists_of_write {refuses? : Location → Bytes → Option FileError}
    (h : tree.write refuses? working path content = .ok new) :
    ∃ destination, tree.destination working path = .ok destination ∧ tree.Gains destination content new ∧
      new.locate working path = .ok destination ∧ new.read working path = .ok content := by
  obtain ⟨destination, hdestination, -, rfl⟩ := write_eq_ok_iff.mp h
  refine ⟨destination, hdestination, ?_⟩
  rw [Node.destination] at hdestination
  split at hdestination
  · cases hdestination
  · rename_i hrefuse
    obtain ⟨here, name, entries, refusal, rfl, hhere, hfree⟩ := exists_parent hdestination
    have hgains := gains_put hhere hfree content
    obtain ⟨left, hway⟩ := exists_way hgains hdestination
    have hlocate : (tree.put (here ++ [name]) (file content)).locate working path = .ok (here ++ [name]) := by
      rw [locate, hrefuse]
      dsimp only
      rw [hway.follow]
      rfl
    refine ⟨hgains, hlocate, ?_⟩
    rw [read, stat, hlocate]
    simp only [bind, Except.bind, hgains.after]

end Node
end Relink

import Relink.ProjectFile
import Relink.Sorted
import Relink.Table

/-! # The index of candidates

The index consists of two tables over the last names of resource paths. One holds the candidates of
each name, the other what is preferred among them. A candidate that is ranked better than every other
is preferred. When several share the best rank, none is, and the candidates of a worse rank are dropped.
The tables are filled one after the other and looked up apart, but they always agree on every name. -/

namespace Relink

/-- Where a name leads. -/
inductive Resolution where
  /-- The one candidate with the best rank. -/
  | unique (path : Text)
  /-- The candidates that share the best rank. -/
  | ambiguous (paths : List Text)
  /-- There is no candidate. -/
  | notFound
  deriving DecidableEq, Repr

/-- What is preferred among the candidates of a name. -/
inductive Preferred where
  /-- The one candidate with the best rank. -/
  | path (path : Text)
  /-- None of those that share the best rank. -/
  | unresolved
  deriving DecidableEq, Repr

/-- What the tables of an index can hold for one name. -/
inductive Agree : Option Preferred → Option (List Text) → Prop
  | absent : Agree none none
  /-- The preferred candidate comes first. -/
  | path (best : Text) (others : List Text) : Agree (some (.path best)) (some (best :: others))
  | unresolved (one other : Text) (others : List Text) :
    Agree (some .unresolved) (some (one :: other :: others))

/-- Candidates by their last names. -/
structure Index where
  preferred : Table Preferred
  groups : Table (List Text)
  agree : ∀ name, Agree (preferred.find? name) (groups.find? name)

namespace Index

/-- The listed paths that have `name` as their last name. -/
def candidates (paths : List Text) (name : Text) : List Text := paths.filter (Resource.basename · = name)

/-! ### Filling the tables -/

/-- Adds a path at the end of the group of its last name. -/
def push (groups : Table (List Text)) (path : Text) : Table (List Text) :=
  groups.update (Resource.basename path) fun group => group.getD [] ++ [path]

/-- Paths by their last names, those of one name in the order of the list. -/
def collect (paths : List Text) : Table (List Text) := paths.foldl push .empty

/-- What is preferred in a group, and what is kept of it. Unless it consists of a single path, it is put
    in the order of rank, length and bytes. No group is empty. -/
def settle : List Text → Preferred × List Text
  | [path] => (.path path, [path])
  | group =>
    match Sorted.sort Resource.precedes group with
    | [] => (.unresolved, [])
    | best :: others =>
      let ranked := best :: others
      let tied := (ranked.takeWhile fun path => Resource.rank path = Resource.rank best).length
      if tied > 1 then (.unresolved, ranked.take tied) else (.path best, ranked)

/-- What is preferred in each group. -/
def prefer (groups : Table (List Text)) : Table Preferred :=
  groups.lines.foldl (fun preferred line => preferred.update line.1 fun _ => (settle line.2).1) .empty

/-- What is kept of each group. -/
def keep (groups : Table (List Text)) : Table (List Text) := groups.map fun group => (settle group).2

theorem find?_foldl_push (paths : List Text) (groups : Table (List Text)) (name : Text) :
    (paths.foldl push groups).find? name =
      if candidates paths name = [] then groups.find? name
      else some ((groups.find? name).getD [] ++ candidates paths name) := by
  induction paths generalizing groups with
  | nil => simp [candidates]
  | cons path paths ih =>
    rw [List.foldl_cons, ih, push, Table.find?_update, candidates, candidates]
    by_cases hn : Resource.basename path = name
    · rw [if_pos hn, List.filter_cons_of_pos (by simpa using hn), if_neg (List.cons_ne_nil _ _)]
      split
      · rename_i hnil
        rw [hnil]
      · simp
    · rw [if_neg hn, List.filter_cons_of_neg (by simpa using hn)]

/-- The group of a name consists of its candidates, as they are listed. -/
theorem find?_collect (paths : List Text) (name : Text) :
    (collect paths).find? name = if candidates paths name = [] then none else some (candidates paths name) := by
  rw [collect, find?_foldl_push]
  rfl

theorem find?_prefer (groups : Table (List Text)) (name : Text) :
    (prefer groups).find? name = (groups.find? name).map fun group => (settle group).1 :=
  Table.find?_fill (fun group => (settle group).1) groups name

theorem find?_keep (groups : Table (List Text)) (name : Text) :
    (keep groups).find? name = (groups.find? name).map fun group => (settle group).2 :=
  Table.find?_map _ groups name

/-- Settling a group of several paths goes by their ranks: the best one is preferred, or those with the best
    rank are kept. -/
theorem settle_cases {group : List Text} (h : group ≠ []) : ∃ best others,
    Sorted.sort Resource.precedes group = best :: others ∧
      ((others.takeWhile fun path => Resource.rank path = Resource.rank best) = [] ∧
          settle group = (.path best, best :: others) ∨
        (others.takeWhile fun path => Resource.rank path = Resource.rank best) ≠ [] ∧ settle group =
          (.unresolved, best :: others.takeWhile fun path => Resource.rank path = Resource.rank best)) := by
  unfold settle
  split
  · rename_i path
    exact ⟨path, [], rfl, Or.inl ⟨rfl, rfl⟩⟩
  · split
    · rename_i hnil
      have hperm := Sorted.sort_perm Resource.precedes group
      rw [hnil] at hperm
      exact absurd hperm.nil_eq.symm h
    · rename_i best others hsort
      refine ⟨best, others, hsort, ?_⟩
      dsimp only
      rw [List.takeWhile_cons_of_pos (by simp), List.length_cons, List.take_succ_cons,
        ← List.prefix_iff_eq_take.mp (List.takeWhile_prefix _)]
      split
      · rename_i hlen
        exact Or.inr ⟨List.length_pos_iff.mp (Nat.lt_of_succ_lt_succ hlen), rfl⟩
      · rename_i hlen
        exact Or.inl ⟨List.length_eq_zero_iff.mp (by omega), rfl⟩

theorem agree_settle {group : List Text} (h : group ≠ []) : Agree (some (settle group).1) (some (settle group).2) := by
  obtain ⟨best, others, -, ⟨-, hsettle⟩ | ⟨hne, hsettle⟩⟩ := settle_cases h
  · rw [hsettle]
    exact .path best others
  · obtain ⟨other, tied, htied⟩ := List.exists_cons_of_ne_nil hne
    rw [hsettle, htied]
    exact .unresolved best other tied

theorem agree_collect (paths : List Text) (name : Text) :
    Agree ((prefer (collect paths)).find? name) ((keep (collect paths)).find? name) := by
  rw [find?_prefer, find?_keep, find?_collect]
  split
  · exact .absent
  · rename_i hne
    exact agree_settle hne

/-- The index of a list of paths. -/
def ofPaths (paths : List Text) : Index :=
  ⟨prefer (collect paths), keep (collect paths), agree_collect paths⟩

/-- The index of the indexable files of a list. -/
def ofFiles (files : List ProjectFile) : Index :=
  ofPaths ((files.filter ProjectFile.isIndexable).map ProjectFile.canonical)

/-! ### Looking up -/

/-- Where a name leads. -/
def resolve (index : Index) (name : Text) : Resolution :=
  match index.preferred.find? name with
  | some (.path path) => .unique path
  | some .unresolved => .ambiguous ((index.groups.find? name).getD [])
  | none => .notFound

/-- The ambiguous names with their candidates, in the order of the names' bytes. -/
def ambiguous (index : Index) : List (Text × List Text) :=
  (index.preferred.lines.filter (·.2 = .unresolved)).filterMap fun line =>
    (index.groups.find? line.1).map (line.1, ·)

/-- The ambiguous names. -/
def ambiguousNames (index : Index) : List Text := index.ambiguous.map (·.1)

/-- The number of names that lead somewhere. -/
def size (index : Index) : Nat := index.preferred.size

/-- Whether there is no candidate. -/
def isEmpty (index : Index) : Bool := index.preferred.isEmpty

end Index

end Relink

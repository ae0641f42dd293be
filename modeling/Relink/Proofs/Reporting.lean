import Mathlib.Data.Set.Card
import Relink.Proofs.Merging
import Relink.Proofs.Naming

/-! # The report of ambiguous names

The report goes through the preferred candidates and takes the group of each unresolved name from the other table; a
look-up goes straight to a name in both. The tables agree on every name, so a group that a name is to be reported
with is there and has two members, and the report and the look-up tell the same. Every listed path has its last name
in both tables, so their lines count the names that lead somewhere. -/

namespace Relink
namespace Index
variable {index : Index} {name path : Text} {paths tied : List Text}

/-! ### What the agreement of the tables rules out -/

/-- An unresolved name has a group of two candidates at least. -/
theorem exists_group_of_unresolved (h : index.preferred.find? name = some .unresolved) :
    ∃ group, index.groups.find? name = some group ∧ 2 ≤ group.length := by
  have hagree := index.agree name
  rw [h] at hagree
  generalize index.groups.find? name = group at hagree
  cases hagree
  exact ⟨_, rfl, by simp⟩

theorem isSome_groups_eq (index : Index) (name : Text) :
    (index.groups.find? name).isSome = (index.preferred.find? name).isSome := by
  have hagree := index.agree name
  generalize index.groups.find? name = group at hagree ⊢
  generalize index.preferred.find? name = preferred at hagree ⊢
  cases hagree <;> rfl

theorem resolve_eq_ambiguous_iff : index.resolve name = .ambiguous tied ↔
    index.preferred.find? name = some .unresolved ∧ index.groups.find? name = some tied := by
  constructor
  · intro h
    rw [resolve] at h
    split at h
    · cases h
    · rename_i hpreferred
      obtain ⟨group, hgroup, -⟩ := exists_group_of_unresolved hpreferred
      rw [hgroup, Option.getD_some] at h
      cases h
      exact ⟨hpreferred, hgroup⟩
    · cases h
  · rintro ⟨hpreferred, hgroup⟩
    rw [resolve, hpreferred, hgroup]
    rfl

theorem two_le_length_of_resolve (h : index.resolve name = .ambiguous tied) : 2 ≤ tied.length := by
  obtain ⟨hpreferred, hgroup⟩ := resolve_eq_ambiguous_iff.mp h
  obtain ⟨group, hgroup', hlength⟩ := exists_group_of_unresolved hpreferred
  cases hgroup.symm.trans hgroup'
  exact hlength

/-! ### What is reported -/

theorem mem_ambiguous_iff : (name, tied) ∈ index.ambiguous ↔ index.resolve name = .ambiguous tied := by
  rw [resolve_eq_ambiguous_iff, ambiguous, List.mem_filterMap]
  constructor
  · rintro ⟨line, hline, hentry⟩
    obtain ⟨hmem, hunresolved⟩ := List.mem_filter.mp hline
    obtain ⟨group, hgroup, he⟩ := Option.map_eq_some_iff.mp hentry
    cases he
    exact ⟨Table.find?_eq_some_iff.mpr (of_decide_eq_true hunresolved ▸ hmem), hgroup⟩
  · rintro ⟨hpreferred, hgroup⟩
    refine ⟨(name, .unresolved), ?_, by simp [hgroup]⟩
    exact List.mem_filter.mpr ⟨Table.find?_eq_some_iff.mp hpreferred, rfl⟩

theorem mem_ambiguousNames_of_resolve (h : index.resolve name = .ambiguous tied) : name ∈ index.ambiguousNames :=
  List.mem_map.mpr ⟨(name, tied), mem_ambiguous_iff.mpr h, rfl⟩

theorem pairwise_ambiguous (index : Index) :
    index.ambiguous.Pairwise fun a b => Utf8.encode a.1 < Utf8.encode b.1 := by
  rw [ambiguous, List.pairwise_filterMap]
  refine (index.preferred.ordered.filter _).imp ?_
  intro line other hlt entry hentry otherEntry hotherEntry
  obtain ⟨_, -, rfl⟩ := Option.map_eq_some_iff.mp hentry
  obtain ⟨_, -, rfl⟩ := Option.map_eq_some_iff.mp hotherEntry
  exact hlt

/-! ### How many names there are -/

/-- The names that lead somewhere. -/
def names (index : Index) : List Text := index.preferred.lines.map (·.1)

theorem length_names (index : Index) : index.names.length = index.size := List.length_map _

theorem nodup_names (index : Index) : index.names.Nodup := by
  have hordered : index.names.Pairwise fun a b => Utf8.encode a < Utf8.encode b :=
    List.pairwise_map.mpr index.preferred.ordered
  refine hordered.imp ?_
  rintro a b hlt rfl
  exact List.lt_irrefl _ hlt

theorem mem_names_iff : name ∈ index.names ↔ index.resolve name ≠ .notFound := by
  have hnames : name ∈ index.names ↔ ∃ preferred, index.preferred.find? name = some preferred := by
    simp only [names, List.mem_map, Table.find?_eq_some_iff]
    exact ⟨fun ⟨line, hline, he⟩ => ⟨line.2, he ▸ hline⟩, fun ⟨preferred, hline⟩ => ⟨_, hline, rfl⟩⟩
  rw [hnames, resolve]
  split <;> rename_i h <;> simp [h]

theorem candidates_eq_nil_iff : candidates paths name = [] ↔ name ∉ paths.map Resource.basename := by
  rw [candidates, List.filter_eq_nil_iff, List.mem_map]
  simp

/-- The names that lead somewhere are the last names of the listed paths. -/
theorem mem_names_ofPaths : name ∈ (ofPaths paths).names ↔ name ∈ paths.map Resource.basename := by
  rw [mem_names_iff, Ne, resolve_eq_notFound_iff, candidates_eq_nil_iff, not_not]

theorem toFinset_names_ofPaths (paths : List Text) :
    (ofPaths paths).names.toFinset = (paths.map Resource.basename).toFinset := by
  ext name
  rw [List.mem_toFinset, List.mem_toFinset, mem_names_ofPaths]

theorem size_ofPaths (paths : List Text) : (ofPaths paths).size = (paths.map Resource.basename).toFinset.card := by
  rw [← toFinset_names_ofPaths, List.toFinset_card_of_nodup (nodup_names _), length_names]

theorem encard_resolve_ne (paths : List Text) :
    {name | (ofPaths paths).resolve name ≠ .notFound}.encard = (ofPaths paths).size := by
  have hnames : {name | (ofPaths paths).resolve name ≠ .notFound} = ((ofPaths paths).names.toFinset : Set Text) := by
    ext name
    rw [Finset.mem_coe, List.mem_toFinset, mem_names_iff]
    rfl
  rw [hnames, Set.encard_coe_eq_coe_finsetCard, toFinset_names_ofPaths, ← size_ofPaths]

theorem isEmpty_ofPaths (paths : List Text) : (ofPaths paths).isEmpty = true ↔ paths = [] := by
  have hnames : (ofPaths paths).isEmpty = true ↔ (ofPaths paths).names = [] := by
    rw [isEmpty, Table.isEmpty, List.isEmpty_iff, names, List.map_eq_nil_iff]
  rw [hnames, List.eq_nil_iff_forall_not_mem]
  constructor
  · intro hnone
    by_contra hne
    obtain ⟨path, paths, rfl⟩ := List.exists_cons_of_ne_nil hne
    exact hnone (Resource.basename path) (mem_names_ofPaths.mpr List.mem_cons_self)
  · rintro rfl name hmem
    exact List.not_mem_nil (mem_names_ofPaths.mp hmem)

/-! ### The report of a list of paths -/

theorem mem_candidates_of_resolve (h : (ofPaths paths).resolve name = .ambiguous tied) (hmem : path ∈ tied) :
    path ∈ candidates paths name := by
  have htarget : path ∈ ((ofPaths paths).resolve name).targets := by
    rw [h]
    exact hmem
  exact (Resource.mem_foremost_iff.mp (mem_targets_resolve.mp htarget)).1

/-- The report lists the names that are looked up as ambiguous, each once and in the order of their bytes, with
    the candidates that the look-up gives: two at least, listed paths that end in the name. The size of an index
    is the number of last names of the listed paths, which are the names that lead somewhere. -/
theorem ambiguous_agrees (paths : List Text) :
    (∀ name tied, (name, tied) ∈ (ofPaths paths).ambiguous ↔ (ofPaths paths).resolve name = .ambiguous tied) ∧
    ((ofPaths paths).ambiguous.Pairwise fun a b => Utf8.encode a.1 < Utf8.encode b.1) ∧
    (∀ entry ∈ (ofPaths paths).ambiguous,
      2 ≤ entry.2.length ∧ ∀ path ∈ entry.2, path ∈ paths ∧ Resource.basename path = entry.1) ∧
    (ofPaths paths).ambiguousNames = (ofPaths paths).ambiguous.map Prod.fst ∧
    (ofPaths paths).size = (paths.map Resource.basename).toFinset.card ∧
    {name | (ofPaths paths).resolve name ≠ .notFound}.encard = (ofPaths paths).size ∧
    ((ofPaths paths).isEmpty = true ↔ paths = []) := by
  refine ⟨fun _ _ => mem_ambiguous_iff, pairwise_ambiguous _, ?_, rfl, size_ofPaths paths,
    encard_resolve_ne paths, isEmpty_ofPaths paths⟩
  rintro ⟨name, tied⟩ hmem
  have hresolve := mem_ambiguous_iff.mp hmem
  refine ⟨two_le_length_of_resolve hresolve, fun path hpath => ?_⟩
  simpa [candidates] using mem_candidates_of_resolve hresolve hpath

theorem ambiguous_agrees_sample :
    (ofPaths ["res://b/P.gd".toList, "res://Q.gd".toList, "res://a/P.gd".toList]).resolve "P.gd".toList =
      .ambiguous ["res://a/P.gd".toList, "res://b/P.gd".toList] ∧
    ("P.gd".toList, ["res://a/P.gd".toList, "res://b/P.gd".toList]) ∈
      (ofPaths ["res://b/P.gd".toList, "res://Q.gd".toList, "res://a/P.gd".toList]).ambiguous ∧
    "res://b/P.gd".toList ∈ ["res://b/P.gd".toList, "res://Q.gd".toList, "res://a/P.gd".toList] ∧
    {name | (ofPaths ["res://b/P.gd".toList, "res://Q.gd".toList, "res://a/P.gd".toList]).resolve name ≠
      .notFound}.encard = 2 := by
  obtain ⟨hagree, -, hentries, -, -, hcount, -⟩ :=
    ambiguous_agrees ["res://b/P.gd".toList, "res://Q.gd".toList, "res://a/P.gd".toList]
  have hresolve : (ofPaths ["res://b/P.gd".toList, "res://Q.gd".toList, "res://a/P.gd".toList]).resolve "P.gd".toList =
      .ambiguous ["res://a/P.gd".toList, "res://b/P.gd".toList] := by decide +kernel
  have hmem := (hagree _ _).mpr hresolve
  have hsize : (ofPaths ["res://b/P.gd".toList, "res://Q.gd".toList, "res://a/P.gd".toList]).size = 2 := by
    decide +kernel
  refine ⟨hresolve, hmem, ((hentries _ hmem).2 _ (by decide)).1, ?_⟩
  rw [hcount, hsize]
  rfl

end Index
end Relink

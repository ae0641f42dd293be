import Mathlib.Data.List.Nodup
import Relink.Proofs.Resolution

/-! # What the groups keep

When several candidates of a name share the best rank, those of a worse rank are dropped from its group. So a group
consists of all candidates of its name when one of them is ranked better than the others, and of the foremost ones
otherwise. A path that is listed twice is twice in its group unless it is dropped from there. -/

namespace Relink.Index
open Resource

variable {paths group : List Text} {name path : Text}

/-- Whether a listed path stays in the group of its last name: it is foremost there, or just one candidate is. -/
def Kept (paths : List Text) (path : Text) : Prop :=
  path ∈ foremost (candidates paths (basename path)) ∨ (foremost (candidates paths (basename path))).length = 1

instance (paths : List Text) (path : Text) : Decidable (Kept paths path) := inferInstanceAs (Decidable (_ ∨ _))

theorem settle_perm (h : group ≠ []) : (settle group).2.Perm
    (group.filter fun path => path ∈ foremost group ∨ (foremost group).length = 1) := by
  obtain ⟨best, others, hsort, hcases⟩ := settle_cases h
  have hperm : (best :: others).Perm group := hsort ▸ Sorted.sort_perm _ group
  have hfore : (foremost group).Perm (best :: others.takeWhile fun path => rank path = rank best) := by
    have hord := Sorted.pairwise_sort precedes_total precedes_trans group
    rw [hsort] at hord
    exact foremost_cons hord ▸ (foremost_perm hperm).symm
  rcases hcases with ⟨htied, hsettle⟩ | ⟨htied, hsettle⟩
  · have hone : (foremost group).length = 1 := by rw [hfore.length_eq, htied, List.length_singleton]
    rw [hsettle, List.filter_eq_self.mpr (by simp [hone])]
    exact hperm
  · have htwo : ¬ (foremost group).length = 1 := by
      have hlength := List.length_pos_iff.mpr htied
      rw [hfore.length_eq, List.length_cons]
      omega
    have hkept : (group.filter fun path => path ∈ foremost group ∨ (foremost group).length = 1) = foremost group := by
      refine List.filter_congr fun path hmem => ?_
      rw [decide_eq_decide.mpr (or_iff_left htwo), Bool.eq_iff_iff, decide_eq_true_iff, mem_foremost_iff]
      simp [hmem]
    rw [hsettle, hkept]
    exact hfore.symm

theorem find?_groups_ofPaths (paths : List Text) (name : Text) : (ofPaths paths).groups.find? name =
    if candidates paths name = [] then none else some (settle (candidates paths name)).2 := by
  rw [ofPaths, find?_keep, find?_collect]
  split <;> rfl

/-- The group of a name consists of those of the kept paths that have it as their last name. -/
theorem group_perm (h : (ofPaths paths).groups.find? name = some group) :
    group.Perm ((paths.filter (Kept paths ·)).filter (basename · = name)) := by
  rw [find?_groups_ofPaths] at h
  split at h
  · cases h
  · rename_i hne
    cases h
    refine (settle_perm hne).trans (List.Perm.of_eq ?_)
    rw [List.filter_comm, ← candidates]
    refine List.filter_congr fun path hmem => ?_
    have hname : basename path = name := by simpa using (List.mem_filter.mp hmem).2
    exact decide_eq_decide.mpr (by rw [Kept, hname])

/-- No group lists a path twice when no kept path is listed twice, and only then. -/
theorem nodup_groups_iff (paths : List Text) :
    (∀ line ∈ (ofPaths paths).groups.lines, line.2.Nodup) ↔ (paths.filter (Kept paths ·)).Nodup := by
  constructor
  · intro h
    rw [List.nodup_iff_count_le_one]
    intro path
    rw [← List.count_filter (p := fun other => basename other = basename path) (by simp)]
    cases hgroup : (ofPaths paths).groups.find? (basename path) with
    | some group =>
      rw [← (group_perm hgroup).count_eq]
      exact List.nodup_iff_count_le_one.mp (h _ (Table.find?_eq_some_iff.mp hgroup)) path
    | none =>
      rw [find?_groups_ofPaths] at hgroup
      split at hgroup
      · rename_i hnone
        rw [List.filter_comm, ← candidates, hnone]
        exact Nat.zero_le 1
      · cases hgroup
  · intro h line hline
    rw [(group_perm (Table.find?_eq_some_iff.mpr hline)).nodup_iff]
    exact h.filter _

/-- The files of a list that stay in the groups of the index. -/
def keptFiles (files : List ProjectFile) : List ProjectFile :=
  let indexed := files.filter ProjectFile.isIndexable
  indexed.filter fun file => Kept (indexed.map ProjectFile.canonical) file.canonical

theorem nodup_groups_ofFiles_iff (files : List ProjectFile) :
    (∀ line ∈ (ofFiles files).groups.lines, line.2.Nodup) ↔ ((keptFiles files).map ProjectFile.canonical).Nodup := by
  rw [ofFiles, nodup_groups_iff, List.filter_map]
  rfl

end Relink.Index

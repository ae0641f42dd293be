import Mathlib.Data.List.Nodup
import Relink.Proofs.Hinge

/-! # Relocations whose paths overlap

The old paths of the relocations can overlap in a text: some end as all of them start. All the same the order of
the relocations does not matter, and each is recorded when its path occurs in the text that is repaired,
whatever the others did to the text before. Only with itself does a path interfere: of two occurrences that
overlap the first one is replaced, and the second one is left. -/

namespace Relink

namespace Text

/-- Whether two occurrences of a path overlap in a text. -/
def Overlaps (path text : Text) : Prop :=
  ∃ front shared back, front ≠ [] ∧ shared ≠ [] ∧ path = front ++ shared ∧ path = shared ++ back ∧
    front ++ (shared ++ back) <:+: text

variable {m text : Text}

/-- What starts with a hinge at the end of a text that has one at its end only is that hinge, or the whole text. -/
theorem eq_hinge_of_suffix {x z : Text} (hx : HingeLast x) (h : hinge ++ z <:+ hinge ++ x) : z = [] ∨ z = x := by
  have hcons : ∀ a : Text, hinge ++ a = 'r' :: 'e' :: 's' :: a := fun _ => rfl
  rw [hcons x, List.suffix_cons_iff, List.suffix_cons_iff, List.suffix_cons_iff] at h
  rcases h with hwhole | h | h | h
  · exact Or.inr (@List.append_cancel_left _ hinge _ _ hwhole)
  · exact absurd (List.cons.inj h).1 (by decide)
  · exact absurd (List.cons.inj h).1 (by decide)
  · left
    by_contra hne
    obtain ⟨z, c, rfl⟩ := (List.eq_nil_or_concat z).resolve_left hne
    obtain ⟨y, rfl⟩ := h
    refine hx ⟨y, z, ?_⟩
    rw [List.concat_eq_append, ← List.append_assoc, ← List.append_assoc, List.dropLast_concat, List.append_assoc]

/-- Occurrences of a path between two hinges overlap where one uses the last hinge of the other. -/
theorem overlaps_iff (hm : HingeLast (m ++ hinge)) :
    Overlaps (hinge ++ (m ++ hinge)) text ↔ hinge ++ (m ++ hinge ++ (m ++ hinge)) <:+: text := by
  constructor
  · rintro ⟨front, shared, back, hfront, hshared, hend, hstart, htext⟩
    have hsuffix : shared <:+ hinge ++ (m ++ hinge) := ⟨front, hend.symm⟩
    have hprefix : shared <+: hinge ++ (m ++ hinge) := ⟨back, hstart.symm⟩
    have hhinge : shared = hinge := by
      rcases List.prefix_or_prefix_of_prefix hprefix (List.prefix_append hinge (m ++ hinge)) with hle | ⟨z, rfl⟩
      · -- A shorter text than the hinge starts as the hinge does and cannot end as it does.
        have hlast : shared <:+ hinge := by
          refine List.suffix_of_suffix_length_le hsuffix ?_ hle.length_le
          exact ⟨hinge ++ m, by rw [List.append_assoc]⟩
        have hcases : shared = hinge ∨ shared = ['e', 's'] ∨ shared = ['s'] ∨ shared = [] := by
          simpa [hinge, List.suffix_cons_iff] using hlast
        rcases hcases with rfl | rfl | rfl | rfl
        · rfl
        · exact absurd hle (by decide)
        · exact absurd hle (by decide)
        · exact absurd rfl hshared
      · rcases eq_hinge_of_suffix hm hsuffix with rfl | rfl
        · exact List.append_nil _
        · exact absurd (List.self_eq_append_left.mp hend) hfront
    subst hhinge
    have hback : back = m ++ hinge := (List.append_cancel_left hstart).symm
    have hfront' : front = hinge ++ m := by
      rw [← List.append_assoc] at hend
      exact (List.append_cancel_right hend).symm
    rw [hback, hfront'] at htext
    simpa only [List.append_assoc] using htext
  · intro h
    refine ⟨hinge ++ m, hinge, m ++ hinge, List.cons_ne_nil _ _, by decide, by simp only [List.append_assoc], rfl, ?_⟩
    simpa only [List.append_assoc] using h

end Text

namespace Relocation
open Text

variable {relocation other : Relocation} {relocations : List Relocation} {path path' m n m' n' text : Text}

/-! ### The paths between their hinges -/

/-- How an old path and its new one are written between hinges, and how the other old paths differ from them. -/
structure Between (relocation : Relocation) (path m n : Text) : Prop where
  old_eq : relocation.old = hinge ++ (m ++ hinge)
  path_eq : path = hinge ++ (n ++ hinge)
  old : HingeLast (m ++ hinge)
  new : HingeLast (n ++ hinge)
  apart : Apart (m ++ hinge) (n ++ hinge)
  others : ∀ other ∈ table, other ≠ relocation →
    ∃ x, other.old = hinge ++ x ∧ HingeLast x ∧ Apart x (m ++ hinge) ∧ Apart x (n ++ hinge)

theorem exists_between (hmem : relocation ∈ table) (h : relocation.destination = .moved path) :
    ∃ m n, Between relocation path m n := by
  simp only [table, List.mem_cons, List.not_mem_nil, or_false] at hmem
  rcases hmem with rfl | rfl | rfl
  · cases h
    refine ⟨"://blocks/mesher.t".toList, "://VoxelToolFiles/voxel_mesher_blocky.t".toList, rfl, rfl, by decide,
      by decide, by decide, fun other hother hne => ?_⟩
    simp only [table, List.mem_cons, List.not_mem_nil, or_false] at hother
    rcases hother with rfl | rfl | rfl
    · exact absurd rfl hne
    · exact ⟨"://blocks/voxel_library.tres".toList, rfl, by decide, by decide, by decide⟩
    · exact ⟨"://blocky_game/save".toList, rfl, by decide, by decide, by decide⟩
  · cases h
    refine ⟨"://blocks/voxel_library.t".toList, "://VoxelToolFiles/voxel_blocky_library.t".toList, rfl, rfl, by decide,
      by decide, by decide, fun other hother hne => ?_⟩
    simp only [table, List.mem_cons, List.not_mem_nil, or_false] at hother
    rcases hother with rfl | rfl | rfl
    · exact ⟨"://blocks/mesher.tres".toList, rfl, by decide, by decide, by decide⟩
    · exact absurd rfl hne
    · exact ⟨"://blocky_game/save".toList, rfl, by decide, by decide, by decide⟩
  · cases h

namespace Between

theorem apply_eq (h : Between relocation path m n) (hdestination : relocation.destination = .moved path) (text : Text) :
    relocation.apply text = swing m n false text := by
  rw [apply, hdestination, h.path_eq, h.old_eq]
  rfl

theorem commuting (h : Between relocation path m n) (h' : Between other path' m' n') (hmem : relocation ∈ table)
    (hmem' : other ∈ table) (hne : other ≠ relocation) : Commuting m n m' n' := by
  obtain ⟨x, hx, -, holds, hnews⟩ := h.others other hmem' hne
  obtain ⟨x', hx', -, -, hnews'⟩ := h'.others relocation hmem hne.symm
  rw [h'.old_eq, List.append_cancel_left_eq] at hx
  rw [h.old_eq, List.append_cancel_left_eq] at hx'
  subst hx hx'
  exact ⟨h.old, h.new, h'.old, h'.new, holds.symm, hnews', hnews⟩

end Between

/-! ### Two relocations -/

theorem apply_removed (h : relocation.destination = .removed) (text : Text) : relocation.apply text = text := by
  rw [apply, h]

theorem apply_comm (hmem : relocation ∈ table) (hmem' : other ∈ table) (text : Text) :
    relocation.apply (other.apply text) = other.apply (relocation.apply text) := by
  by_cases hne : other = relocation
  · rw [hne]
  cases hdestination : relocation.destination with
  | removed => simp only [apply_removed hdestination]
  | moved path =>
    cases hdestination' : other.destination with
    | removed => simp only [apply_removed hdestination']
    | moved path' =>
      obtain ⟨m, n, hbetween⟩ := exists_between hmem hdestination
      obtain ⟨m', n', hbetween'⟩ := exists_between hmem' hdestination'
      simp only [hbetween.apply_eq hdestination, hbetween'.apply_eq hdestination']
      exact swing_comm (hbetween.commuting hbetween' hmem hmem' hne) false false text

/-- A relocation neither hides nor creates an old path of another one. -/
theorem infix_apply (hmem : relocation ∈ table) (hmem' : other ∈ table) (hne : other ≠ relocation) (text : Text) :
    other.old <:+: relocation.apply text ↔ other.old <:+: text := by
  cases hdestination : relocation.destination with
  | removed => rw [apply_removed hdestination]
  | moved path =>
    obtain ⟨m, n, hbetween⟩ := exists_between hmem hdestination
    obtain ⟨x, hold, hlast, hapart, hapart'⟩ := hbetween.others other hmem' hne
    rw [hbetween.apply_eq hdestination, hold]
    exact infix_swing hlast hbetween.old hbetween.new hapart hapart' false text

/-- A relocation leaves its own old path where two occurrences overlap. -/
theorem infix_apply_self (hmem : relocation ∈ table) (hdestination : relocation.destination = .moved path)
    (text : Text) : relocation.old <:+: relocation.apply text ↔ Overlaps relocation.old text := by
  obtain ⟨m, n, hbetween⟩ := exists_between hmem hdestination
  rw [hbetween.apply_eq hdestination, hbetween.old_eq, overlaps_iff hbetween.old]
  exact infix_swing_self hbetween.old hbetween.new hbetween.apart false text

/-! ### All relocations -/

theorem applyAll_eq_foldl (relocations : List Relocation) (text : Text) :
    (applyAll relocations text).1 = relocations.foldl (fun text relocation => relocation.apply text) text := by
  induction relocations generalizing text with
  | nil => rfl
  | cons relocation relocations ih => rw [applyAll_cons_text, List.foldl_cons, ih]

theorem applyAll_text_perm (h : relocations.Perm table) (text : Text) :
    (applyAll relocations text).1 = (applyAll table text).1 := by
  rw [applyAll_eq_foldl, applyAll_eq_foldl]
  refine h.foldl_eq' (fun relocation hmem other hmem' text => ?_) text
  exact apply_comm (h.mem_iff.mp hmem') (h.mem_iff.mp hmem) text

theorem infix_applyAll_of_ne (hmem : ∀ relocation ∈ relocations, relocation ∈ table ∧ other ≠ relocation)
    (hother : other ∈ table) (text : Text) : other.old <:+: (applyAll relocations text).1 ↔ other.old <:+: text := by
  induction relocations generalizing text with
  | nil => rfl
  | cons relocation relocations ih =>
    obtain ⟨⟨hfirst, hne⟩, hrest⟩ := List.forall_mem_cons.mp hmem
    rw [applyAll_cons_text, ih hrest, infix_apply hfirst hother hne]

/-- Each relocation is recorded when its old path occurs in the text that the first one is applied to. -/
theorem changes_applyAll (hmem : ∀ relocation ∈ relocations, relocation ∈ table) (hnodup : relocations.Nodup)
    (text : Text) : (applyAll relocations text).2 =
      (relocations.filter fun relocation => relocation.old <:+: text).map change := by
  induction relocations generalizing text with
  | nil => rfl
  | cons relocation relocations ih =>
    obtain ⟨hfirst, hrest⟩ := List.forall_mem_cons.mp hmem
    obtain ⟨hnew, hnodup⟩ := List.nodup_cons.mp hnodup
    have hlater : relocations.filter (fun other => other.old <:+: relocation.apply text) =
        relocations.filter fun other => other.old <:+: text := by
      refine List.filter_congr fun other hother => ?_
      have hne : other ≠ relocation := fun he => hnew (he ▸ hother)
      rw [decide_eq_decide]
      exact infix_apply hfirst (hrest other hother) hne text
    by_cases hcontains : relocation.old <:+: text
    · rw [applyAll, if_pos (contains_iff.mpr hcontains), List.filter_cons_of_pos (by simpa using hcontains),
        List.map_cons, ← hlater, ← ih hrest hnodup]
    · rw [applyAll, if_neg (mt contains_iff.mp hcontains), List.filter_cons_of_neg (by simpa using hcontains),
        ih hrest hnodup]

theorem nodup_table : (table.map old).Nodup := by decide

/-- The relocations can be applied in any order. Each makes one record when its old path occurs in the text, and
    none otherwise, in the order in which they are applied. -/
theorem applyAll_perm (h : relocations.Perm table) (text : Text) :
    (applyAll relocations text).1 = (applyAll table text).1 ∧
    (applyAll relocations text).2 = (relocations.filter fun relocation => relocation.old <:+: text).map change ∧
    ∀ relocation ∈ table, (applyAll relocations text).2.countP (·.path = relocation.old) =
      if relocation.old <:+: text then 1 else 0 := by
  have hold : (relocations.map old).Nodup := (h.map old).nodup_iff.mpr nodup_table
  have hnodup : relocations.Nodup := List.Nodup.of_map old hold
  have hchanges := changes_applyAll (fun relocation => h.mem_iff.mp) hnodup text
  refine ⟨applyAll_text_perm h text, hchanges, fun relocation hmem => ?_⟩
  have hcount : (applyAll relocations text).2.countP (·.path = relocation.old) =
      ((relocations.filter fun relocation => relocation.old <:+: text).map old).count relocation.old := by
    rw [hchanges, List.countP_map, List.count, List.countP_map]
    refine List.countP_congr fun other _ => ?_
    rw [Function.comp_apply, Function.comp_apply, decide_eq_true_iff, beq_iff_eq, change]
  have hoccurs : relocation.old ∈ (relocations.filter fun relocation => relocation.old <:+: text).map old ↔
      relocation.old <:+: text := by
    simp only [List.mem_map, List.mem_filter, decide_eq_true_eq]
    constructor
    · rintro ⟨other, ⟨-, htext⟩, hsame⟩
      rwa [← hsame]
    · intro htext
      exact ⟨relocation, ⟨h.mem_iff.mpr hmem, htext⟩, rfl⟩
  rw [hcount, List.Nodup.count (hold.sublist (List.filter_sublist.map old))]
  simp only [hoccurs]

theorem applyAll_perm_sample : table.reverse.Perm table ∧
    (applyAll table.reverse "res://blocks/mesher.tres://blocks/voxel_library.tres".toList).1 =
      "res://VoxelToolFiles/voxel_mesher_blocky.tres://VoxelToolFiles/voxel_blocky_library.tres".toList ∧
    (applyAll table.reverse "res://blocks/mesher.tres://blocks/voxel_library.tres".toList).2.map Change.path =
      ["res://blocks/voxel_library.tres".toList, "res://blocks/mesher.tres".toList] := by
  obtain ⟨htext, hchanges, -⟩ := applyAll_perm (List.reverse_perm table)
    "res://blocks/mesher.tres://blocks/voxel_library.tres".toList
  rw [htext, hchanges]
  exact ⟨List.reverse_perm table, by decide +kernel, by decide +kernel⟩

/-- Once the relocations are applied, a path that moved is left in the text exactly when two of its occurrences
    overlapped there. -/
theorem infix_applyAll_iff (hmem : relocation ∈ table) (hdestination : relocation.destination = .moved path)
    (text : Text) : relocation.old <:+: (applyAll table text).1 ↔ Overlaps relocation.old text := by
  -- The order does not matter, so the relocation can be made first, and the others leave its old path alone.
  have hperm : (relocation :: table.erase relocation).Perm table := (List.perm_cons_erase hmem).symm
  have hnodup : (relocation :: table.erase relocation).Nodup := hperm.nodup_iff.mpr (List.Nodup.of_map old nodup_table)
  have hothers : ∀ other ∈ table.erase relocation, other ∈ table ∧ relocation ≠ other := by
    intro other hother
    refine ⟨List.mem_of_mem_erase hother, ?_⟩
    rintro rfl
    exact (List.nodup_cons.mp hnodup).1 hother
  rw [← applyAll_text_perm hperm, applyAll_cons_text, infix_applyAll_of_ne hothers hmem,
    infix_apply_self hmem hdestination]

theorem infix_applyAll_iff_sample :
    table[0] ∈ table ∧ table[0].destination = .moved "res://VoxelToolFiles/voxel_mesher_blocky.tres".toList ∧
    (table[0].old <:+: (applyAll table "res://blocks/mesher.tres://blocks/mesher.tres".toList).1 ↔
      Overlaps table[0].old "res://blocks/mesher.tres://blocks/mesher.tres".toList) ∧
    ¬ Overlaps table[0].old "res://blocks/mesher.tres res://blocks/mesher.tres".toList := by
  have hmem : table[0] ∈ table := List.mem_cons_self
  have hgone : ¬ table[0].old <:+: (applyAll table "res://blocks/mesher.tres res://blocks/mesher.tres".toList).1 := by
    decide +kernel
  rw [infix_applyAll_iff hmem rfl] at hgone
  exact ⟨hmem, rfl, infix_applyAll_iff hmem rfl _, hgone⟩

/-- Of two occurrences that overlap the second one is left. -/
theorem infix_applyAll_overlap : table[0].destination = .moved "res://VoxelToolFiles/voxel_mesher_blocky.tres".toList ∧
    table[0].old <:+: (applyAll table "res://blocks/mesher.tres://blocks/mesher.tres".toList).1 := by
  decide +kernel

end Relocation
end Relink

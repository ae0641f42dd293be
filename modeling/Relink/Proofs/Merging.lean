import Mathlib.Data.List.Basic
import Relink.Proofs.Resolution

/-! # Indexes put together

Where a name leads depends on its foremost candidates only, and the foremost candidates of two lists together are
those of one list or of both. So where a name leads in two lists is known from where it leads in each, although
neither index tells which candidates lost. -/

namespace Relink

namespace Resource
variable {a b : List Text} {p q : Text}

/-! ### The order of candidates of one rank -/

theorem shortlex_total (a b : Text) : Shortlex a b ∨ Shortlex b a := by
  rcases Nat.lt_trichotomy (Utf8.encode a).length (Utf8.encode b).length with hlt | heq | hgt
  · exact Or.inl (Or.inl hlt)
  · rcases Std.le_total (a := Utf8.encode a) (b := Utf8.encode b) with hle | hle
    · exact Or.inl (Or.inr ⟨heq, hle⟩)
    · exact Or.inr (Or.inr ⟨heq.symm, hle⟩)
  · exact Or.inr (Or.inl hgt)

theorem shortlex_trans {a b c : Text} (hab : Shortlex a b) (hbc : Shortlex b c) : Shortlex a c := by
  rcases hab with hab | ⟨hlen, hab⟩ <;> rcases hbc with hbc | ⟨hlen', hbc⟩
  · exact Or.inl (Nat.lt_trans hab hbc)
  · exact Or.inl (hlen' ▸ hab)
  · exact Or.inl (hlen ▸ hbc)
  · exact Or.inr ⟨hlen.trans hlen', List.le_trans hab hbc⟩

/-- A list in the order of candidates of one rank. -/
def inOrder (paths : List Text) : List Text := Sorted.sort (fun p q => Shortlex p q) paths

theorem inOrder_perm (paths : List Text) : (inOrder paths).Perm paths := Sorted.sort_perm _ paths

theorem pairwise_inOrder (paths : List Text) : (inOrder paths).Pairwise Shortlex := by
  have htotal : ∀ p q, decide (Shortlex p q) = true ∨ decide (Shortlex q p) = true :=
    fun p q => (shortlex_total p q).imp decide_eq_true decide_eq_true
  have htrans : ∀ p q r, decide (Shortlex p q) = true → decide (Shortlex q r) = true → decide (Shortlex p r) = true :=
    fun p q r hpq hqr => decide_eq_true (shortlex_trans (of_decide_eq_true hpq) (of_decide_eq_true hqr))
  exact (Sorted.pairwise_sort htotal htrans paths).imp of_decide_eq_true

/-! ### The foremost candidates of two lists -/

theorem exists_mem_foremost (h : a ≠ []) : ∃ p, p ∈ foremost a := by
  induction a with
  | nil => exact absurd rfl h
  | cons p a ih =>
    by_cases hp : ∀ q ∈ a, rank p ≤ rank q
    · exact ⟨p, mem_foremost_iff.mpr ⟨List.mem_cons_self, List.forall_mem_cons.mpr ⟨Nat.le_refl _, hp⟩⟩⟩
    · simp only [not_forall, Nat.not_le] at hp
      obtain ⟨q, hq, hlt⟩ := hp
      obtain ⟨least, hleast⟩ := ih (List.ne_nil_of_mem hq)
      obtain ⟨hmem, hle⟩ := mem_foremost_iff.mp hleast
      refine ⟨least, mem_foremost_iff.mpr ⟨List.mem_cons_of_mem _ hmem, List.forall_mem_cons.mpr ⟨?_, hle⟩⟩⟩
      exact Nat.le_trans (hle q hq) (Nat.le_of_lt hlt)

theorem foremost_eq_nil_iff : foremost a = [] ↔ a = [] := by
  constructor
  · intro h
    by_contra hne
    obtain ⟨p, hp⟩ := exists_mem_foremost hne
    exact List.not_mem_nil (h ▸ hp)
  · rintro rfl
    rfl

/-- Beside another list, the foremost members of a list stay foremost or none of its members does. -/
theorem filter_beside (hp : p ∈ foremost a) (hq : q ∈ foremost b) :
    (a.filter fun r => (a.all fun other => rank r ≤ rank other) && b.all fun other => rank r ≤ rank other) =
      if rank p ≤ rank q then foremost a else [] := by
  obtain ⟨hmemp, hleastp⟩ := mem_foremost_iff.mp hp
  obtain ⟨hmemq, hleastq⟩ := mem_foremost_iff.mp hq
  split
  · rename_i hle
    refine List.filter_congr fun r _ => ?_
    rw [Bool.and_eq_left_iff_imp, List.all_eq_true, List.all_eq_true]
    intro hr other hother
    have hrp : rank r ≤ rank p := by simpa using hr p hmemp
    exact decide_eq_true (Nat.le_trans (Nat.le_trans hrp hle) (hleastq other hother))
  · rename_i hlt
    refine List.filter_eq_nil_iff.mpr fun r hr hall => ?_
    simp only [Bool.and_eq_true, List.all_eq_true, decide_eq_true_eq] at hall
    exact hlt (Nat.le_trans (hleastp r hr) (hall.2 q hmemq))

theorem foremost_append (hp : p ∈ foremost a) (hq : q ∈ foremost b) : foremost (a ++ b) =
    (if rank p ≤ rank q then foremost a else []) ++ if rank q ≤ rank p then foremost b else [] := by
  rw [← filter_beside hp hq, ← filter_beside hq hp, foremost, List.filter_append]
  simp only [List.all_append]
  exact congrArg _ (List.filter_congr fun r _ => Bool.and_comm _ _)

end Resource

namespace Resolution
open Resource

/-- The candidates that a name leads to. -/
def targets : Resolution → List Text
  | unique path => [path]
  | ambiguous paths => paths
  | notFound => []

/-- Where a name leads in two lists together, when it leads to these in each: to the candidates with the lesser
    rank, and when their ranks are equal, to all of them in order. -/
def merge (one other : Resolution) : Resolution :=
  match one.targets, other.targets with
  | [], _ => other
  | _, [] => one
  | p :: _, q :: _ =>
    if rank p < rank q then one
    else if rank q < rank p then other
    else ambiguous (inOrder (one.targets ++ other.targets))

/-- A name leads to the foremost of its candidates. -/
theorem targets_ofRanked {paths : List Text} (h : paths.Pairwise (precedes · · = true)) :
    (ofRanked paths).targets = foremost paths := by
  cases hresolution : ofRanked paths with
  | unique p => exact ((ofRanked_eq_unique_iff h).mp hresolution).symm
  | ambiguous tied => exact ((ofRanked_eq_ambiguous_iff h).mp hresolution).2
  | notFound => rw [ofRanked_eq_notFound_iff.mp hresolution]; rfl

theorem ofRanked_eq_of_foremost {paths others : List Text} (h : paths.Pairwise (precedes · · = true))
    (hother : others.Pairwise (precedes · · = true)) (hfore : foremost paths = foremost others) :
    ofRanked paths = ofRanked others := by
  cases hresolution : ofRanked others with
  | unique p =>
    rw [ofRanked_eq_unique_iff hother] at hresolution
    rw [ofRanked_eq_unique_iff h, hfore, hresolution]
  | ambiguous tied =>
    rw [ofRanked_eq_ambiguous_iff hother] at hresolution
    rwa [ofRanked_eq_ambiguous_iff h, hfore]
  | notFound =>
    rw [ofRanked_eq_notFound_iff] at hresolution ⊢
    rw [hresolution] at hfore
    exact foremost_eq_nil_iff.mp hfore

end Resolution

namespace Index
open Resource

variable {paths others : List Text} {name : Text}

theorem targets_resolve_perm (paths : List Text) (name : Text) :
    ((ofPaths paths).resolve name).targets.Perm (foremost (candidates paths name)) := by
  rw [resolve_eq_ofRanked, Resolution.targets_ofRanked (pairwise_ranked _ _)]
  exact foremost_perm (ranked_perm paths name)

/-- Where a name leads depends on its foremost candidates only. -/
theorem resolve_congr (h : (foremost (candidates paths name)).Perm (foremost (candidates others name))) :
    (ofPaths paths).resolve name = (ofPaths others).resolve name := by
  have hord := pairwise_ranked paths name
  have hord' := pairwise_ranked others name
  rw [resolve_eq_ofRanked, resolve_eq_ofRanked]
  refine Resolution.ofRanked_eq_of_foremost hord hord' ?_
  have hperm : (foremost (ranked paths name)).Perm (foremost (ranked others name)) :=
    (foremost_perm (ranked_perm paths name)).trans (h.trans (foremost_perm (ranked_perm others name)).symm)
  exact List.Perm.eq_of_pairwise (fun a b _ _ => shortlex_antisymm) (pairwise_foremost hord) (pairwise_foremost hord')
    hperm

theorem candidates_append (paths others : List Text) (name : Text) :
    candidates (paths ++ others) name = candidates paths name ++ candidates others name := List.filter_append _ _

theorem mem_targets_resolve {p : Text} :
    p ∈ ((ofPaths paths).resolve name).targets ↔ p ∈ foremost (candidates paths name) :=
  (targets_resolve_perm paths name).mem_iff

theorem targets_resolve_eq_nil_iff :
    ((ofPaths paths).resolve name).targets = [] ↔ candidates paths name = [] := by
  have hperm := targets_resolve_perm paths name
  rw [← foremost_eq_nil_iff (a := candidates paths name)]
  exact ⟨fun h => (h ▸ hperm).nil_eq.symm, fun h => (h ▸ hperm).eq_nil⟩

theorem resolve_eq_notFound_iff : (ofPaths paths).resolve name = .notFound ↔ candidates paths name = [] := by
  rw [resolve_eq_ofRanked, Resolution.ofRanked_eq_notFound_iff]
  have hperm := ranked_perm paths name
  exact ⟨fun h => (h ▸ hperm).nil_eq.symm, fun h => (h ▸ hperm).eq_nil⟩

/-- When the foremost candidates of two lists have one rank, a name leads to all of them. -/
theorem resolve_append_of_rank_eq {p q : Text} (hp : p ∈ ((ofPaths paths).resolve name).targets)
    (hq : q ∈ ((ofPaths others).resolve name).targets) (h : rank p = rank q) :
    (ofPaths (paths ++ others)).resolve name =
      .ambiguous (inOrder (((ofPaths paths).resolve name).targets ++ ((ofPaths others).resolve name).targets)) := by
  have hord := pairwise_ranked (paths ++ others) name
  have horder := inOrder_perm (((ofPaths paths).resolve name).targets ++ ((ofPaths others).resolve name).targets)
  have hfore : foremost (candidates (paths ++ others) name) =
      foremost (candidates paths name) ++ foremost (candidates others name) := by
    rw [candidates_append, foremost_append (mem_targets_resolve.mp hp) (mem_targets_resolve.mp hq),
      if_pos (Nat.le_of_eq h), if_pos (Nat.le_of_eq h.symm)]
  have htargets : (((ofPaths paths).resolve name).targets ++ ((ofPaths others).resolve name).targets).Perm
      (foremost (ranked (paths ++ others) name)) := by
    refine ((targets_resolve_perm paths name).append (targets_resolve_perm others name)).trans ?_
    rw [← hfore]
    exact (foremost_perm (ranked_perm _ name)).symm
  rw [resolve_eq_ofRanked, Resolution.ofRanked_eq_ambiguous_iff hord]
  -- Each list has a foremost candidate, so there are two. The order leaves no choice how they are listed.
  constructor
  · have hlength := List.length_pos_of_mem hp
    have hlength' := List.length_pos_of_mem hq
    rw [← htargets.length_eq, List.length_append]
    omega
  · exact List.Perm.eq_of_pairwise (fun a b _ _ => shortlex_antisymm) (pairwise_inOrder _) (pairwise_foremost hord)
      (horder.trans htargets)

theorem resolve_append_eq_merge (paths others : List Text) (name : Text) : (ofPaths (paths ++ others)).resolve name =
    ((ofPaths paths).resolve name).merge ((ofPaths others).resolve name) := by
  unfold Resolution.merge
  split
  · rename_i hnil
    refine resolve_congr ?_
    rw [candidates_append, targets_resolve_eq_nil_iff.mp hnil, List.nil_append]
  · rename_i hnil _
    refine resolve_congr ?_
    rw [candidates_append, targets_resolve_eq_nil_iff.mp hnil, List.append_nil]
  · rename_i p tied q tied' hone hother
    have hp : p ∈ ((ofPaths paths).resolve name).targets := hone ▸ List.mem_cons_self
    have hq : q ∈ ((ofPaths others).resolve name).targets := hother ▸ List.mem_cons_self
    have hfore := foremost_append (mem_targets_resolve.mp hp) (mem_targets_resolve.mp hq)
    split
    · rename_i hlt
      refine resolve_congr ?_
      rw [candidates_append, hfore, if_pos (Nat.le_of_lt hlt), if_neg (Nat.not_le_of_lt hlt), List.append_nil]
    · rename_i hnlt
      split
      · rename_i hlt
        refine resolve_congr ?_
        rw [candidates_append, hfore, if_neg (Nat.not_le_of_lt hlt), if_pos (Nat.le_of_lt hlt), List.nil_append]
      · rename_i hngt
        exact resolve_append_of_rank_eq hp hq (by omega)

/-! ### One more path -/

theorem resolve_insert_of_ne {path : Text} (before after : List Text) (h : basename path ≠ name) :
    (ofPaths (before ++ path :: after)).resolve name = (ofPaths (before ++ after)).resolve name := by
  refine resolve_congr ?_
  rw [candidates_append, candidates_append, candidates, candidates, candidates,
    List.filter_cons_of_neg (by simpa using h)]

theorem resolve_insert_of_rank_lt {before after : List Text} {path p : Text}
    (hp : p ∈ ((ofPaths (before ++ after)).resolve (basename path)).targets) (h : rank p < rank path) :
    (ofPaths (before ++ path :: after)).resolve (basename path) = (ofPaths (before ++ after)).resolve (basename path) := by
  rw [mem_targets_resolve] at hp
  have hmiddle : (before ++ path :: after).Perm ([path] ++ (before ++ after)) := List.perm_middle
  have hpath : path ∈ foremost [path] := mem_foremost_iff.mpr ⟨List.mem_cons_self, by simp⟩
  have hself : candidates [path] (basename path) = [path] := List.filter_eq_self.mpr (by simp)
  refine resolve_congr ((foremost_perm (hmiddle.filter _)).trans ?_)
  have hfore := foremost_append hpath hp
  rw [if_neg (Nat.not_le_of_lt h), if_pos (Nat.le_of_lt h), List.nil_append] at hfore
  rw [← candidates, candidates_append, hself, hfore]

/-- Where a name leads in two lists together is merged from where it leads in each of them, the candidates that it
    leads to being of one rank. So a path that is added has no influence on other names, and none at all when the
    candidates that are there already have a lesser rank. -/
theorem resolve_merges :
    (∀ paths others name,
      (ofPaths (paths ++ others)).resolve name =
        ((ofPaths paths).resolve name).merge ((ofPaths others).resolve name) ∧
      (((ofPaths paths).resolve name).targets = [] ↔ (ofPaths paths).resolve name = .notFound) ∧
      ∀ p ∈ ((ofPaths paths).resolve name).targets, ∀ q ∈ ((ofPaths paths).resolve name).targets, rank p = rank q) ∧
    ∀ before after path,
      (∀ name, basename path ≠ name →
        (ofPaths (before ++ path :: after)).resolve name = (ofPaths (before ++ after)).resolve name) ∧
      ∀ p ∈ ((ofPaths (before ++ after)).resolve (basename path)).targets, rank p < rank path →
        ∀ name, (ofPaths (before ++ path :: after)).resolve name = (ofPaths (before ++ after)).resolve name := by
  refine ⟨fun paths others name => ⟨resolve_append_eq_merge paths others name, ?_, fun p hp q hq => ?_⟩,
    fun before after path => ⟨fun name hne => resolve_insert_of_ne before after hne, fun p hp hlt name => ?_⟩⟩
  · rw [targets_resolve_eq_nil_iff, resolve_eq_notFound_iff]
  · exact rank_eq_of_mem_foremost (mem_targets_resolve.mp hp) (mem_targets_resolve.mp hq)
  · by_cases hname : basename path = name
    · exact hname ▸ resolve_insert_of_rank_lt hp hlt
    · exact resolve_insert_of_ne before after hname

theorem resolve_merges_sample :
    (ofPaths (["res://bb/P.gd".toList, "res://Scripts/Q.gd".toList] ++
      ["res://A/P.gd".toList, "res://a/Q.gd".toList])).resolve "P.gd".toList =
        .ambiguous ["res://A/P.gd".toList, "res://bb/P.gd".toList] ∧
    (ofPaths ["res://A/P.gd".toList, "res://Scripts/Q.gd".toList]).resolve "P.gd".toList =
      .unique "res://A/P.gd".toList ∧
    (ofPaths ["res://a/Q.gd".toList, "res://Scripts/Q.gd".toList]).resolve "Q.gd".toList =
      .unique "res://Scripts/Q.gd".toList := by
  obtain ⟨happend, hinsert⟩ := resolve_merges
  refine ⟨?_, ?_, ?_⟩
  · rw [(happend _ _ _).1]
    decide +kernel
  · have hother := (hinsert ["res://A/P.gd".toList] [] "res://Scripts/Q.gd".toList).1 "P.gd".toList (by decide)
    rw [List.singleton_append] at hother
    rw [hother]
    decide +kernel
  · have hworse := (hinsert [] ["res://Scripts/Q.gd".toList] "res://a/Q.gd".toList).2
      "res://Scripts/Q.gd".toList (by decide +kernel) (by decide) "Q.gd".toList
    rw [List.nil_append] at hworse
    rw [hworse]
    decide +kernel

end Index
end Relink

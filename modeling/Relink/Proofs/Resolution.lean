import Relink.Index

/-! # Where a name leads

The candidates of a name are the listed paths that have it as their last name, each as often as it is
listed. A name leads to its foremost candidate, the one with the least rank, when that is one alone;
when several share the least rank, it leads to all of these, the shorter ones first. So the order of
the list has no influence. -/

namespace Relink
namespace Resource

/-- Whether a path has fewer bytes than another, or as many that do not come after the other's. -/
def Shortlex (a b : Text) : Prop :=
  (Utf8.encode a).length < (Utf8.encode b).length ∨
    (Utf8.encode a).length = (Utf8.encode b).length ∧ Utf8.encode a ≤ Utf8.encode b

instance (a b : Text) : Decidable (Shortlex a b) := inferInstanceAs (Decidable (_ ∨ _ ∧ _))

theorem map_toNat_lt_iff {a b : Bytes} : a.map UInt8.toNat < b.map UInt8.toNat ↔ a < b := by
  induction a generalizing b with
  | nil => cases b <;> simp
  | cons x a ih =>
    cases b with
    | nil => simp
    | cons y b => simp only [List.map_cons, List.cons_lt_cons_iff, ih, UInt8.lt_iff_toNat_lt, UInt8.toNat_inj]

/-- Candidates are ordered by rank, and those of one rank by length and bytes. -/
theorem precedes_iff_rank {a b : Text} :
    precedes a b = true ↔ rank a < rank b ∨ rank a = rank b ∧ Shortlex a b := by
  rw [precedes_iff, List.not_lt]
  simp only [sortKey, Shortlex, List.cons_le_cons_iff]
  rw [← List.not_lt, map_toNat_lt_iff, List.not_lt]

theorem rank_le_of_precedes {a b : Text} (h : precedes a b = true) : rank a ≤ rank b := by
  rcases precedes_iff_rank.mp h with h | ⟨h, -⟩ <;> omega

theorem shortlex_of_precedes {a b : Text} (h : precedes a b = true) (hr : rank a = rank b) : Shortlex a b := by
  rcases precedes_iff_rank.mp h with h | ⟨-, h⟩
  · omega
  · exact h

theorem shortlex_antisymm {a b : Text} (hab : Shortlex a b) (hba : Shortlex b a) : a = b := by
  rcases hab with hab | ⟨hlen, hab⟩
  · rcases hba with hba | ⟨hlen, -⟩ <;> omega
  · rcases hba with hba | ⟨-, hba⟩
    · omega
    · exact Utf8.encode_injective (List.le_antisymm hab hba)

/-- The members of a list that no member is ranked before. -/
def foremost (paths : List Text) : List Text := paths.filter fun p => paths.all fun q => rank p ≤ rank q

theorem mem_foremost_iff {paths : List Text} {p : Text} :
    p ∈ foremost paths ↔ p ∈ paths ∧ ∀ q ∈ paths, rank p ≤ rank q := by
  simp only [foremost, List.mem_filter, List.all_eq_true, decide_eq_true_eq]

theorem foremost_perm {paths others : List Text} (h : paths.Perm others) :
    (foremost paths).Perm (foremost others) := by
  unfold foremost
  have he : ∀ p, (paths.all fun q => decide (rank p ≤ rank q)) = others.all fun q => decide (rank p ≤ rank q) :=
    fun p => h.all_eq
  simp only [he]
  exact h.filter _

theorem filter_rank_eq_takeWhile {paths : List Text} (h : paths.Pairwise (precedes · · = true)) {n : Nat}
    (hn : ∀ p ∈ paths, n ≤ rank p) :
    (paths.filter fun p => rank p = n) = paths.takeWhile fun p => rank p = n := by
  induction paths with
  | nil => rfl
  | cons p paths ih =>
    obtain ⟨hp, hpaths⟩ := List.pairwise_cons.mp h
    by_cases he : rank p = n
    · rw [List.filter_cons_of_pos (by simpa using he), List.takeWhile_cons_of_pos (by simpa using he),
        ih hpaths fun q hq => hn q (List.mem_cons_of_mem _ hq)]
    · -- Once a rank is greater than the least one, so are all that follow.
      have hgt : ∀ q ∈ paths, ¬ rank q = n := fun q hq hq' => by
        have h₁ := rank_le_of_precedes (hp q hq)
        have h₂ := hn p List.mem_cons_self
        omega
      rw [List.filter_cons_of_neg (by simpa using he), List.takeWhile_cons_of_neg (by simpa using he),
        List.filter_eq_nil_iff]
      simpa using hgt

/-- In a list in order the foremost members come first. -/
theorem foremost_cons {best : Text} {others : List Text} (h : (best :: others).Pairwise (precedes · · = true)) :
    foremost (best :: others) = best :: others.takeWhile fun path => rank path = rank best := by
  obtain ⟨hbest, hothers⟩ := List.pairwise_cons.mp h
  have hle : ∀ p ∈ others, rank best ≤ rank p := fun p hp => rank_le_of_precedes (hbest p hp)
  have hall : ∀ p ∈ best :: others, ((best :: others).all fun q => decide (rank p ≤ rank q)) =
      decide (rank p = rank best) := by
    intro p hp
    rw [Bool.eq_iff_iff, List.all_eq_true, decide_eq_true_iff]
    refine ⟨fun h => ?_, fun h q hq => ?_⟩
    · have h₁ : rank p ≤ rank best := by simpa using h best List.mem_cons_self
      rcases List.mem_cons.mp hp with rfl | hp
      · rfl
      · exact Nat.le_antisymm h₁ (hle p hp)
    · rw [decide_eq_true_iff, h]
      rcases List.mem_cons.mp hq with rfl | hq
      · exact Nat.le_refl _
      · exact hle q hq
  rw [foremost, List.filter_congr hall, List.filter_cons_of_pos (by simp), filter_rank_eq_takeWhile hothers hle]

theorem rank_eq_of_mem_foremost {paths : List Text} {p q : Text} (hp : p ∈ foremost paths)
    (hq : q ∈ foremost paths) : rank p = rank q := by
  rw [mem_foremost_iff] at hp hq
  exact Nat.le_antisymm (hp.2 q hq.1) (hq.2 p hp.1)

/-- The foremost members of a list in order come shorter ones first. -/
theorem pairwise_foremost {paths : List Text} (h : paths.Pairwise (precedes · · = true)) :
    (foremost paths).Pairwise Shortlex := by
  have hf : (foremost paths).Pairwise (precedes · · = true) := h.filter _
  exact hf.imp_of_mem fun hp hq hpq => shortlex_of_precedes hpq (rank_eq_of_mem_foremost hp hq)

end Resource

namespace Resolution
open Resource

/-- Where candidates lead that are in the order of rank, length and bytes. -/
def ofRanked : List Text → Resolution
  | [] => notFound
  | best :: others =>
    match others.takeWhile fun path => rank path = rank best with
    | [] => unique best
    | tied => ambiguous (best :: tied)

theorem ofRanked_eq_notFound_iff {paths : List Text} : ofRanked paths = .notFound ↔ paths = [] := by
  cases paths with
  | nil => simp [ofRanked]
  | cons best others =>
    rw [ofRanked]
    split <;> simp

theorem ofRanked_eq_unique_iff {paths : List Text} (h : paths.Pairwise (precedes · · = true)) {p : Text} :
    ofRanked paths = .unique p ↔ foremost paths = [p] := by
  cases paths with
  | nil => simp [ofRanked, foremost]
  | cons best others =>
    rw [foremost_cons h, ofRanked]
    split
    · rename_i hnil
      simp [hnil]
    · rename_i hne
      simpa using fun _ => hne

theorem ofRanked_eq_ambiguous_iff {paths : List Text} (h : paths.Pairwise (precedes · · = true))
    {tied : List Text} : ofRanked paths = .ambiguous tied ↔ 2 ≤ (foremost paths).length ∧ tied = foremost paths := by
  cases paths with
  | nil => simp [ofRanked, foremost]
  | cons best others =>
    rw [foremost_cons h, ofRanked]
    split
    · rename_i hnil
      simp [hnil]
    · rename_i hne
      have hlen := List.length_pos_iff.mpr hne
      simp only [ambiguous.injEq, List.length_cons]
      exact ⟨fun h => ⟨by omega, h.symm⟩, fun h => h.2.symm⟩

end Resolution

namespace Index
open Resource

/-- The candidates of a name in the order of rank, length and bytes. -/
def ranked (paths : List Text) (name : Text) : List Text := Sorted.sort precedes (candidates paths name)

theorem ranked_perm (paths : List Text) (name : Text) : (ranked paths name).Perm (candidates paths name) :=
  Sorted.sort_perm _ _

theorem pairwise_ranked (paths : List Text) (name : Text) : (ranked paths name).Pairwise (precedes · · = true) :=
  Sorted.pairwise_sort precedes_total precedes_trans _

/-- The order of the paths has no influence on that of the candidates. -/
theorem ranked_congr {paths others : List Text} (h : paths.Perm others) (name : Text) :
    ranked paths name = ranked others name := by
  have hperm := (ranked_perm paths name).trans ((h.filter _).trans (ranked_perm others name).symm)
  exact List.Perm.eq_of_pairwise (fun a b _ _ => precedes_antisymm) (pairwise_ranked paths name)
    (pairwise_ranked others name) hperm

/-- What the two tables tell of a name is what its candidates in order tell. -/
theorem resolve_eq_ofRanked (paths : List Text) (name : Text) :
    (ofPaths paths).resolve name = .ofRanked (ranked paths name) := by
  rw [resolve, ofPaths, find?_prefer, find?_keep, find?_collect, ranked]
  by_cases hnil : candidates paths name = []
  · rw [hnil]
    rfl
  · rw [if_neg hnil]
    obtain ⟨best, others, hsort, ⟨htied, hsettle⟩ | ⟨htied, hsettle⟩⟩ := settle_cases hnil
    · simp [hsettle, hsort, Resolution.ofRanked, htied]
    · simp only [Option.map_some, hsettle, hsort, Option.getD_some, Resolution.ofRanked]

/-- A name leads nowhere when it has no candidate, to its foremost candidate when that is one alone, and
    otherwise to the foremost candidates, the shorter ones first. The order of the paths has no
    influence. -/
theorem resolve_ofPaths (paths : List Text) :
    (∀ name,
      ((ofPaths paths).resolve name = .notFound ↔ candidates paths name = []) ∧
      (∀ p, (ofPaths paths).resolve name = .unique p ↔ foremost (candidates paths name) = [p]) ∧
      ∀ tied, (ofPaths paths).resolve name = .ambiguous tied ↔
        2 ≤ (foremost (candidates paths name)).length ∧ tied.Perm (foremost (candidates paths name)) ∧
          tied.Pairwise Shortlex) ∧
    ∀ others, others.Perm paths → ∀ name, (ofPaths others).resolve name = (ofPaths paths).resolve name := by
  refine ⟨fun name => ?_, fun others h name => by rw [resolve_eq_ofRanked, ranked_congr h, resolve_eq_ofRanked]⟩
  have hperm := ranked_perm paths name
  have hord := pairwise_ranked paths name
  have hfore := foremost_perm hperm
  rw [resolve_eq_ofRanked]
  refine ⟨?_, fun p => ?_, fun tied => ?_⟩
  · rw [Resolution.ofRanked_eq_notFound_iff]
    exact ⟨fun h => (h ▸ hperm).nil_eq.symm, fun h => (h ▸ hperm).eq_nil⟩
  · rw [Resolution.ofRanked_eq_unique_iff hord]
    exact ⟨fun h => (h ▸ hfore).singleton_eq.symm, fun h => (h ▸ hfore).eq_singleton⟩
  · rw [Resolution.ofRanked_eq_ambiguous_iff hord, hfore.length_eq]
    refine and_congr_right fun _ => ⟨?_, fun ⟨ht, hs⟩ => ?_⟩
    · rintro rfl
      exact ⟨hfore, pairwise_foremost hord⟩
    · exact List.Perm.eq_of_pairwise (fun a b _ _ => shortlex_antisymm) hs (pairwise_foremost hord)
        (ht.trans hfore.symm)

theorem resolve_ofPaths_swapped :
    ["res://B/P.gd".toList, "res://A/P.gd".toList].Perm ["res://A/P.gd".toList, "res://B/P.gd".toList] ∧
    (ofPaths ["res://B/P.gd".toList, "res://A/P.gd".toList]).resolve "P.gd".toList =
      .ambiguous ["res://A/P.gd".toList, "res://B/P.gd".toList] := by
  have hperm : ["res://B/P.gd".toList, "res://A/P.gd".toList].Perm
      ["res://A/P.gd".toList, "res://B/P.gd".toList] := .swap _ _ _
  obtain ⟨hresolve, hcongr⟩ := resolve_ofPaths ["res://A/P.gd".toList, "res://B/P.gd".toList]
  refine ⟨hperm, ?_⟩
  rw [hcongr _ hperm, (hresolve _).2.2]
  exact ⟨by decide, by decide, by decide⟩

end Index
end Relink

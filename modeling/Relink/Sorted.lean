/-! # Ordered lists

A list that is kept in order by inserting each element before the first one that it precedes. -/

namespace Relink.Sorted

/-- Inserts an element before the first one that it comes before, `le` being the order. -/
def insert {α : Type} (le : α → α → Bool) (a : α) : List α → List α
  | [] => [a]
  | b :: list => if le a b then a :: b :: list else b :: insert le a list

/-- The elements of a list in order. -/
def sort {α : Type} (le : α → α → Bool) (list : List α) : List α := list.foldr (insert le) []

theorem insert_perm {α : Type} (le : α → α → Bool) (a : α) (list : List α) :
    (insert le a list).Perm (a :: list) := by
  induction list with
  | nil => exact .refl _
  | cons b list ih =>
    unfold insert
    split
    · exact .refl _
    · exact (ih.cons b).trans (.swap a b list)

theorem sort_perm {α : Type} (le : α → α → Bool) (list : List α) : (sort le list).Perm list := by
  induction list with
  | nil => exact .refl _
  | cons a list ih => exact (insert_perm le a _).trans (ih.cons a)

theorem pairwise_insert {α : Type} {le : α → α → Bool} (total : ∀ a b, le a b = true ∨ le b a = true)
    (trans : ∀ a b c, le a b = true → le b c = true → le a c = true) (a : α) {list : List α}
    (h : list.Pairwise (le · · = true)) : (insert le a list).Pairwise (le · · = true) := by
  induction list with
  | nil => simp [insert]
  | cons b list ih =>
    obtain ⟨hb, hl⟩ := List.pairwise_cons.mp h
    unfold insert
    split
    · rename_i hab
      refine List.pairwise_cons.mpr ⟨fun c hc => ?_, h⟩
      rcases List.mem_cons.mp hc with rfl | hc
      · exact hab
      · exact trans a b c hab (hb c hc)
    · rename_i hab
      refine List.pairwise_cons.mpr ⟨fun c hc => ?_, ih hl⟩
      rcases List.mem_cons.mp ((insert_perm le a list).mem_iff.mp hc) with rfl | hc
      · exact (total c b).resolve_left hab
      · exact hb c hc

theorem pairwise_sort {α : Type} {le : α → α → Bool} (total : ∀ a b, le a b = true ∨ le b a = true)
    (trans : ∀ a b c, le a b = true → le b c = true → le a c = true) (list : List α) :
    (sort le list).Pairwise (le · · = true) := by
  induction list with
  | nil => exact .nil
  | cons a list ih => exact pairwise_insert total trans a ih

end Relink.Sorted

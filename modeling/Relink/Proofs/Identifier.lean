import Mathlib.Data.List.DropRight
import Relink.Proofs.Spelling

/-! # The names of called functions

The name of a function in a text is the whole word before the parenthesis. A call is recognised where this word ends in
`load`: as one of `preload` where that is the whole word, and as one of `load` in all other cases. -/

namespace Relink.Reference
variable {callee : Callee} {front before : Text}

/-- The word that the name of a called function ends, when `front` stands before it. -/
def identifier (front : Text) (callee : Callee) : Text := front.rtakeWhile Text.isWord ++ callee.name

theorem rtakeWhile_eq_nil_iff : front.rtakeWhile Text.isWord = [] ↔ front.getLast?.any Text.isWord = false := by
  rcases List.eq_nil_or_concat front with rfl | ⟨before, c, rfl⟩
  · simp
  · simp [List.rtakeWhile_concat]

theorem rtakeWhile_append (h : before.getLast?.any Text.isWord = false) (front : Text) :
    (before ++ front).rtakeWhile Text.isWord = front.rtakeWhile Text.isWord := by
  induction front using List.reverseRecOn with
  | nil => rw [List.append_nil, rtakeWhile_eq_nil_iff.mpr h, List.rtakeWhile_nil]
  | append_singleton front c ih => rw [← List.append_assoc, List.rtakeWhile_concat, List.rtakeWhile_concat, ih]

/-- Letters are the word before a place when they stand there and no character of a word precedes them. -/
theorem rtakeWhile_eq_iff {letters : Text} (hletters : ∀ c ∈ letters, Text.isWord c = true) :
    front.rtakeWhile Text.isWord = letters ↔
      ∃ before, front = before ++ letters ∧ before.getLast?.any Text.isWord = false := by
  constructor
  · rintro rfl
    refine ⟨front.rdropWhile Text.isWord, List.rdropWhile_append_rtakeWhile.symm, ?_⟩
    cases hlast : (front.rdropWhile Text.isWord).getLast? with
    | none => rfl
    | some c =>
      have hne : front.rdropWhile Text.isWord ≠ [] := by
        intro hnil
        simp [hnil] at hlast
      have hnot := List.rdropWhile_last_not Text.isWord front hne
      rw [List.getLast?_eq_some_getLast hne, Option.some.injEq] at hlast
      simpa [hlast] using hnot
  · rintro ⟨before, rfl, hbefore⟩
    rw [rtakeWhile_append hbefore, List.rtakeWhile_eq_self_iff]
    exact hletters

/-- A function is recognised by the word that its name ends. -/
theorem begins_iff : (Keyword.call callee).Begins front ↔
    (callee = .preload ↔ identifier front callee = Callee.preload.name) := by
  cases callee with
  | preload =>
    have hname : identifier front .preload = Callee.preload.name ↔ front.rtakeWhile Text.isWord = [] :=
      List.append_left_eq_self
    rw [hname, rtakeWhile_eq_nil_iff]
    simp [Keyword.Begins]
  | load =>
    have hname : identifier front .load = Callee.preload.name ↔ front.rtakeWhile Text.isWord = "pre".toList := by
      have hsplit : Callee.preload.name = "pre".toList ++ Callee.load.name := rfl
      rw [identifier, hsplit, List.append_left_inj]
    have hletters : "pre".toList.all Text.isWord = true := by decide
    rw [hname, rtakeWhile_eq_iff (List.all_eq_true.mp hletters)]
    simp only [reduceCtorEq, false_iff, not_exists, not_and, Bool.not_eq_false, Keyword.Begins]

/-- A recognised call has one of the two names as a whole when no word stands before it. -/
theorem exists_name_iff (h : (Keyword.call callee).Begins front) :
    (∃ function : Callee, identifier front callee = function.name) ↔ front.getLast?.any Text.isWord = false := by
  rw [begins_iff] at h
  have hself : identifier front callee = callee.name ↔ front.getLast?.any Text.isWord = false := by
    rw [← rtakeWhile_eq_nil_iff]
    exact List.append_left_eq_self
  rw [← hself]
  constructor
  · rintro ⟨function, hfunction⟩
    cases function with
    | preload => rw [hfunction, h.mpr hfunction]
    | load =>
      cases callee with
      | load => exact hfunction
      | preload => exact h.mp rfl
  · intro hname
    exact ⟨callee, hname⟩

/-- Only the word before a call tells what is recognised there. -/
theorem begins_append {keyword : Keyword} (h : before.getLast?.any Text.isWord = false) :
    keyword.Begins (before ++ front) ↔ keyword.Begins front := by
  cases keyword with
  | path => exact Iff.rfl
  | call callee => rw [begins_iff, begins_iff, identifier, rtakeWhile_append h, identifier]

end Relink.Reference

import Mathlib.Data.List.Infix
import Relink.Proofs.Relocating

/-! # Replacing between hinges

Relocated paths start with the letters that many of them end in, the hinge, and have these nowhere else. Two
occurrences of such paths can share a hinge and nothing more. Replacing goes over a text from hinge to hinge: an
occurrence that is replaced uses up the hinge before it, gets another middle and leaves its last hinge as it was.
So the replacements of two paths with different middles can be made in either order, and one of them neither
hides nor creates an occurrence of the other. An occurrence that comes right after a replaced one of the same
path finds its hinge used up. -/

namespace Relink.Text

/-- What relocated paths can share where they overlap. -/
def hinge : Text := "res".toList

/-- The hinge stands at the end of the text, if anywhere. -/
def HingeLast (a : Text) : Prop := ¬ hinge <:+: a.dropLast

instance (a : Text) : Decidable (HingeLast a) := inferInstanceAs (Decidable (¬ _))

/-- No text starts with both. -/
def Apart (a b : Text) : Prop := ¬ a <+: b ∧ ¬ b <+: a

instance (a b : Text) : Decidable (Apart a b) := inferInstanceAs (Decidable (_ ∧ _))

variable {m n m' n' x y u text : Text} {c : Char} {ready ready' : Bool}

/-! ### Texts with a hinge -/

theorem Apart.symm (h : Apart x y) : Apart y x := ⟨h.2, h.1⟩

theorem Apart.not_prefix (h : Apart x y) (u : Text) : ¬ x <+: y ++ u := by
  intro hx
  rcases List.prefix_or_prefix_of_prefix hx (List.prefix_append y u) with hxy | hyx
  · exact h.1 hxy
  · exact h.2 hyx

theorem HingeLast.of_cons (h : HingeLast (c :: x)) : HingeLast x := by
  intro hinside
  cases x with
  | nil => exact absurd hinside (by decide)
  | cons d x => exact h (hinside.trans (List.suffix_cons c _).isInfix)

/-- A text that starts with the hinge and has it at its end only is the hinge. -/
theorem HingeLast.eq_nil (h : HingeLast (hinge ++ x)) : x = [] := by
  by_contra hne
  obtain ⟨x, c, rfl⟩ := (List.eq_nil_or_concat x).resolve_left hne
  refine h ⟨[], x, ?_⟩
  rw [List.concat_eq_append, ← List.append_assoc, List.dropLast_concat, List.nil_append]

theorem HingeLast.not_prefix (h : HingeLast (c :: (x ++ hinge))) (u : Text) : ¬ hinge <+: c :: (x ++ (hinge ++ u)) := by
  rintro ⟨v, hv⟩
  have hsplit : hinge ++ v = c :: (x ++ hinge) ++ u := by simpa using hv
  rcases List.append_eq_append_iff.mp hsplit with ⟨w, hw, -⟩ | ⟨w, hw, -⟩
  · have hnil : w = [] := HingeLast.eq_nil (hw ▸ h)
    have hlength := congrArg List.length hw
    rw [hnil] at hlength
    simp [hinge] at hlength
  · have hlength := congrArg List.length hw
    simp only [hinge, List.length_append, List.length_cons] at hlength
    simp at hlength
    omega

/-- An occurrence that starts in a text which has the hinge nowhere starts where the next hinge does. -/
theorem infix_append_hinge (h : HingeLast (m ++ hinge)) :
    hinge ++ x <:+: m ++ (hinge ++ u) ↔ hinge ++ x <:+: hinge ++ u := by
  induction m with
  | nil => rfl
  | cons c m ih =>
    have hnot : ¬ hinge ++ x <+: c :: (m ++ (hinge ++ u)) := fun hx =>
      h.not_prefix u ((List.prefix_append hinge x).trans hx)
    rw [List.cons_append, List.infix_cons_iff, or_iff_right hnot, ih h.of_cons]

theorem infix_hinge : hinge ++ x <:+: hinge ++ u ↔ x <+: u ∨ hinge ++ x <:+: u := by
  have hhinge : hinge = ['r', 'e', 's'] := rfl
  rw [hhinge]
  simp [List.infix_cons_iff, List.cons_prefix_cons]

theorem exists_of_not_hinge_prefix (h : ¬ hinge <+: text) : text = [] ∨ ∃ c u, text = c :: u ∧ ¬ hinge <+: c :: u := by
  cases text with
  | nil => exact Or.inl rfl
  | cons c u => exact Or.inr ⟨c, u, rfl, h⟩

/-! ### Replacing from hinge to hinge -/

/-- A text after the middle `m` between two hinges was replaced by `n` wherever it occurs. When `ready`, the hinge
    before the text is still to be used. -/
def swing (m n : Text) (ready : Bool) (text : Text) : Text :=
  match ready, after? (m ++ hinge) text with
  | true, some rest => n ++ (hinge ++ replaceAll (hinge ++ (m ++ hinge)) (hinge ++ (n ++ hinge)) rest)
  | _, _ => replaceAll (hinge ++ (m ++ hinge)) (hinge ++ (n ++ hinge)) text

theorem swing_false (m n text : Text) :
    swing m n false text = replaceAll (hinge ++ (m ++ hinge)) (hinge ++ (n ++ hinge)) text := rfl

theorem swing_true_used (m n u : Text) : swing m n true (m ++ (hinge ++ u)) = n ++ (hinge ++ swing m n false u) := by
  have hafter : after? (m ++ hinge) (m ++ (hinge ++ u)) = some u :=
    after?_eq_some_iff.mpr (List.append_assoc m hinge u).symm
  simp only [swing, hafter]

theorem swing_unused (h : ready = true → ¬ m ++ hinge <+: text) : swing m n ready text = swing m n false text := by
  cases ready with
  | false => rfl
  | true =>
    have hafter : after? (m ++ hinge) text = none := by
      rw [Option.eq_none_iff_forall_ne_some]
      intro u hu
      exact h rfl ⟨u, (after?_eq_some_iff.mp hu).symm⟩
    simp only [swing, hafter]

theorem swing_nil (m n : Text) (ready : Bool) : swing m n ready [] = [] := by
  have hnot : ready = true → ¬ m ++ hinge <+: [] := by
    intro _ hprefix
    have hnil := List.prefix_nil.mp hprefix
    exact absurd (List.append_eq_nil_iff.mp hnil).2 (by decide)
  rw [swing_unused hnot]
  rfl

theorem swing_cons (m n : Text) (h : ¬ hinge <+: c :: u) : swing m n false (c :: u) = c :: swing m n false u := by
  have hnot : ¬ hinge ++ (m ++ hinge) <+: c :: u := fun hold => h ((List.prefix_append _ _).trans hold)
  rw [swing_false, replaceAll, replaceFrom, if_neg (mt List.isPrefixOf_iff_prefix.mp hnot)]
  rfl

theorem swing_hinge (m n u : Text) : swing m n false (hinge ++ u) = hinge ++ swing m n true u := by
  by_cases hused : m ++ hinge <+: u
  · obtain ⟨v, rfl⟩ := hused
    have hsplit : hinge ++ (m ++ (hinge ++ v)) = hinge ++ (m ++ hinge) ++ v := by simp only [List.append_assoc]
    have hne : hinge ++ (m ++ hinge) ≠ [] := List.cons_ne_nil _ _
    rw [List.append_assoc m hinge v, swing_true_used, hsplit, swing_false, replaceAll_of_prefix hne, List.append_assoc,
      List.append_assoc]
    rfl
  · have hnot : ¬ hinge ++ (m ++ hinge) <+: hinge ++ u := by rwa [List.prefix_append_right_inj]
    have htail : swing m n false ('e' :: 's' :: u) = 'e' :: 's' :: swing m n false u := by
      rw [swing_cons m n (by simp [hinge, List.cons_prefix_cons]), swing_cons m n (by simp [hinge, List.cons_prefix_cons])]
    have hcons : hinge ++ u = 'r' :: 'e' :: 's' :: u := rfl
    rw [swing_unused fun _ => hused]
    rw [hcons] at hnot ⊢
    rw [swing_false, replaceAll, replaceFrom, if_neg (mt List.isPrefixOf_iff_prefix.mp hnot)]
    exact congrArg ('r' :: ·) htail

/-- Up to the next hinge a text is copied. -/
theorem swing_append_hinge (h : HingeLast (x ++ hinge)) (u : Text) :
    swing m n false (x ++ (hinge ++ u)) = x ++ (hinge ++ swing m n true u) := by
  induction x with
  | nil => exact swing_hinge m n u
  | cons c x ih => rw [List.cons_append, swing_cons m n (h.not_prefix u), ih h.of_cons, List.cons_append]

/-- A text that has the hinge at its end only is in front before when it is in front after. -/
theorem prefix_swing (h : HingeLast x) (m n u : Text) : x <+: swing m n false u ↔ x <+: u := by
  induction x generalizing u with
  | nil => simp only [List.nil_prefix]
  | cons d x ih =>
    by_cases hu : hinge <+: u
    · obtain ⟨v, rfl⟩ := hu
      rw [swing_hinge]
      have hshort : ∀ w, d :: x <+: hinge ++ w → d :: x <+: hinge := by
        intro w hw
        rcases List.prefix_or_prefix_of_prefix hw (List.prefix_append hinge w) with hle | ⟨z, hz⟩
        · exact hle
        · have hnil : z = [] := HingeLast.eq_nil (hz ▸ h)
          rw [← hz, hnil, List.append_nil]
      exact ⟨fun hw => (hshort _ hw).trans (List.prefix_append _ _),
        fun hw => (hshort _ hw).trans (List.prefix_append _ _)⟩
    · rcases exists_of_not_hinge_prefix hu with rfl | ⟨c, u, rfl, hnot⟩
      · rw [swing_nil]
      · rw [swing_cons m n hnot, List.cons_prefix_cons, List.cons_prefix_cons, ih h.of_cons]

theorem hinge_prefix_swing (m n u : Text) : hinge <+: swing m n false u ↔ hinge <+: u :=
  prefix_swing (by decide) m n u

/-- What holds at the end of a text, and of a longer text when it holds of what follows its first character or its
    first hinge, holds of all texts. Where a hinge is ready, it is used or it is not. -/
theorem swing_induction {P : Bool → Text → Prop} (m : Text) (nil : P false [])
    (cons : ∀ c u, ¬ hinge <+: c :: u → P false u → P false (c :: u))
    (hinge : ∀ u, P true u → P false (hinge ++ u))
    (used : ∀ u, P false u → P true (m ++ (Text.hinge ++ u)))
    (unused : ∀ u, ¬ m ++ Text.hinge <+: u → P false u → P true u) (ready : Bool) (text : Text) : P ready text := by
  -- On the length, as a hinge and a used middle are each passed over whole.
  induction hlength : text.length using Nat.strongRecOn generalizing ready text with
  | ind k ih =>
  subst hlength
  have hfalse : P false text := by
    by_cases hfront : Text.hinge <+: text
    · obtain ⟨u, rfl⟩ := hfront
      refine hinge u (ih u.length ?_ true u rfl)
      rw [List.length_append]
      exact Nat.lt_add_of_pos_left (by decide)
    · rcases exists_of_not_hinge_prefix hfront with rfl | ⟨c, u, rfl, hnot⟩
      · exact nil
      · exact cons c u hnot (ih u.length (Nat.lt_succ_self _) false u rfl)
  cases ready with
  | false => exact hfalse
  | true =>
    by_cases hused : m ++ Text.hinge <+: text
    · obtain ⟨u, rfl⟩ := hused
      rw [List.append_assoc]
      refine used u (ih u.length ?_ false u rfl)
      have hpos : 0 < Text.hinge.length := by decide
      simp only [List.length_append]
      omega
    · exact unused text hused hfalse

/-! ### Occurrences of another path -/

/-- The text with the hinge that stands ready before it. -/
def behind (ready : Bool) (text : Text) : Text := if ready then hinge ++ text else text

/-- A replacement neither hides nor creates an occurrence of another path. -/
theorem infix_swing (hx : HingeLast x) (hm : HingeLast (m ++ hinge)) (hn : HingeLast (n ++ hinge))
    (hold : Apart x (m ++ hinge)) (hnew : Apart x (n ++ hinge)) (ready : Bool) (text : Text) :
    hinge ++ x <:+: behind ready (swing m n ready text) ↔ hinge ++ x <:+: behind ready text := by
  induction ready, text using swing_induction m with
  | nil => rw [swing_nil]
  | cons c u hnot ih =>
    have hnot' : ¬ hinge <+: c :: swing m n false u := by rwa [← swing_cons m n hnot, hinge_prefix_swing]
    have hfront : ∀ {v}, ¬ hinge <+: c :: v → ¬ hinge ++ x <+: c :: v := fun hc hv =>
      hc ((List.prefix_append hinge x).trans hv)
    simp only [behind, Bool.false_eq_true, ↓reduceIte] at ih ⊢
    rw [swing_cons m n hnot, List.infix_cons_iff, List.infix_cons_iff, or_iff_right (hfront hnot'),
      or_iff_right (hfront hnot), ih]
  | hinge u ih =>
    rw [swing_hinge]
    exact ih
  | used u ih =>
    simp only [behind, Bool.false_eq_true, ↓reduceIte] at ih ⊢
    have hnotOld : ¬ x <+: m ++ (hinge ++ u) := by
      rw [← List.append_assoc]
      exact hold.not_prefix u
    have hnotNew : ¬ x <+: n ++ (hinge ++ swing m n false u) := by
      rw [← List.append_assoc]
      exact hnew.not_prefix _
    rw [swing_true_used, infix_hinge, infix_hinge, or_iff_right hnotOld, or_iff_right hnotNew, infix_append_hinge hm,
      infix_append_hinge hn, infix_hinge, infix_hinge, prefix_swing hx, ih]
  | unused u hnot ih =>
    simp only [behind, Bool.false_eq_true, ↓reduceIte] at ih ⊢
    rw [swing_unused fun _ => hnot, infix_hinge, infix_hinge, prefix_swing hx, ih]

/-! ### Occurrences of the replaced path -/

/-- The replaced path is left where it occurred twice in a row with a shared hinge. -/
theorem infix_swing_self (hm : HingeLast (m ++ hinge)) (hn : HingeLast (n ++ hinge))
    (hapart : Apart (m ++ hinge) (n ++ hinge)) (ready : Bool) (text : Text) :
    hinge ++ (m ++ hinge) <:+: behind ready (swing m n ready text) ↔
      hinge ++ (m ++ hinge ++ (m ++ hinge)) <:+: behind ready text := by
  induction ready, text using swing_induction m with
  | nil =>
    rw [swing_nil]
    simp [behind, hinge]
  | cons c u hnot ih =>
    have hnot' : ¬ hinge <+: c :: swing m n false u := by rwa [← swing_cons m n hnot, hinge_prefix_swing]
    have hfront : ∀ {x v}, ¬ hinge <+: c :: v → ¬ hinge ++ x <+: c :: v := fun hc hv =>
      hc ((List.prefix_append hinge _).trans hv)
    simp only [behind, Bool.false_eq_true, ↓reduceIte] at ih ⊢
    rw [swing_cons m n hnot, List.infix_cons_iff, List.infix_cons_iff, or_iff_right (hfront hnot'),
      or_iff_right (hfront hnot), ih]
  | hinge u ih =>
    rw [swing_hinge]
    exact ih
  | used u ih =>
    simp only [behind, Bool.false_eq_true, ↓reduceIte] at ih ⊢
    have hnotNew : ¬ m ++ hinge <+: n ++ (hinge ++ swing m n false u) := by
      rw [← List.append_assoc]
      exact hapart.not_prefix _
    -- The hinge after the used middle is not ready, so an occurrence that starts with it is left.
    have htwice : m ++ hinge ++ (m ++ hinge) <+: m ++ (hinge ++ u) ↔ m ++ hinge <+: u := by
      rw [← List.append_assoc m hinge u, List.prefix_append_right_inj]
    have honce : m ++ hinge ++ (m ++ hinge) <+: u → m ++ hinge <+: u := (List.prefix_append _ _).trans
    rw [swing_true_used, infix_hinge, infix_hinge, or_iff_right hnotNew, htwice, infix_append_hinge hm,
      infix_append_hinge hn, infix_hinge, infix_hinge, prefix_swing hm, ih]
    exact ⟨Or.imp_right Or.inr, fun h => h.elim Or.inl fun h => h.imp_left honce⟩
  | unused u hnot ih =>
    simp only [behind, Bool.false_eq_true, ↓reduceIte] at ih ⊢
    have hnotTwice : ¬ m ++ hinge ++ (m ++ hinge) <+: u := fun h => hnot ((List.prefix_append _ _).trans h)
    rw [swing_unused fun _ => hnot, infix_hinge, infix_hinge, prefix_swing hm, or_iff_right hnot,
      or_iff_right hnotTwice, ih]

/-! ### Two replacements -/

/-- Replacements of different middles, where neither writes what the other one replaces. -/
structure Commuting (m n m' n' : Text) : Prop where
  old : HingeLast (m ++ hinge)
  new : HingeLast (n ++ hinge)
  old' : HingeLast (m' ++ hinge)
  new' : HingeLast (n' ++ hinge)
  apart : Apart (m ++ hinge) (m' ++ hinge)
  written : Apart (m ++ hinge) (n' ++ hinge)
  written' : Apart (m' ++ hinge) (n ++ hinge)

theorem Commuting.symm (h : Commuting m n m' n') : Commuting m' n' m n :=
  ⟨h.old', h.new', h.old, h.new, h.apart.symm, h.written', h.written⟩

/-- Where one of the replacements uses the hinge, the other one does not. -/
theorem swing_comm_used (h : Commuting m n m' n')
    (ih : swing m n false (swing m' n' true u) = swing m' n' true (swing m n false u)) (ready' : Bool) :
    swing m n true (swing m' n' ready' (m ++ (hinge ++ u))) =
      swing m' n' ready' (swing m n true (m ++ (hinge ++ u))) := by
  have hunused : ready' = true → ¬ m' ++ hinge <+: m ++ (hinge ++ u) := by
    intro _
    rw [← List.append_assoc]
    exact h.apart.symm.not_prefix u
  have hunusedNew : ready' = true → ¬ m' ++ hinge <+: n ++ (hinge ++ swing m n false u) := by
    intro _
    rw [← List.append_assoc]
    exact h.written'.not_prefix _
  calc swing m n true (swing m' n' ready' (m ++ (hinge ++ u)))
    _ = swing m n true (m ++ (hinge ++ swing m' n' true u)) := by rw [swing_unused hunused, swing_append_hinge h.old]
    _ = n ++ (hinge ++ swing m' n' true (swing m n false u)) := by rw [swing_true_used, ih]
    _ = swing m' n' ready' (n ++ (hinge ++ swing m n false u)) := by
      rw [swing_unused hunusedNew, swing_append_hinge h.new]
    _ = swing m' n' ready' (swing m n true (m ++ (hinge ++ u))) := by rw [swing_true_used]

theorem swing_comm_unused (h : Commuting m n m' n') (hunused : ready = true → ¬ m ++ hinge <+: text)
    (hunused' : ready' = true → ¬ m' ++ hinge <+: text)
    (ih : swing m n false (swing m' n' false text) = swing m' n' false (swing m n false text)) :
    swing m n ready (swing m' n' ready' text) = swing m' n' ready' (swing m n ready text) := by
  have hlater : ready = true → ¬ m ++ hinge <+: swing m' n' false text := by
    rw [prefix_swing h.old]
    exact hunused
  have hlater' : ready' = true → ¬ m' ++ hinge <+: swing m n false text := by
    rw [prefix_swing h.old']
    exact hunused'
  rw [swing_unused hunused, swing_unused hunused', swing_unused hlater, swing_unused hlater', ih]

/-- The two replacements can be made in either order. -/
theorem swing_comm (h : Commuting m n m' n') (ready ready' : Bool) (text : Text) :
    swing m n ready (swing m' n' ready' text) = swing m' n' ready' (swing m n ready text) := by
  induction hlength : text.length using Nat.strongRecOn generalizing ready ready' text with
  | ind k ih =>
  subst hlength
  have hfalse : swing m n false (swing m' n' false text) = swing m' n' false (swing m n false text) := by
    by_cases hfront : hinge <+: text
    · obtain ⟨u, rfl⟩ := hfront
      have hshorter : u.length < (hinge ++ u).length := by
        rw [List.length_append]
        exact Nat.lt_add_of_pos_left (by decide)
      simp only [swing_hinge, ih u.length hshorter true true u rfl]
    · rcases exists_of_not_hinge_prefix hfront with rfl | ⟨c, u, rfl, hnot⟩
      · simp only [swing_nil]
      · have hnot' : ∀ m n, ¬ hinge <+: c :: swing m n false u := by
          intro m n
          rwa [← swing_cons m n hnot, hinge_prefix_swing]
        simp only [swing_cons _ _ hnot, swing_cons _ _ (hnot' _ _), ih u.length (Nat.lt_succ_self _) false false u rfl]
  have hshorter : ∀ m u : Text, u.length < (m ++ (hinge ++ u)).length := by
    intro m u
    have hpos : 0 < hinge.length := by decide
    simp only [List.length_append]
    omega
  by_cases hused : ready = true ∧ m ++ hinge <+: text
  · obtain ⟨rfl, u, rfl⟩ := hused
    rw [List.append_assoc] at ih ⊢
    exact swing_comm_used h (ih u.length (hshorter m u) false true u rfl) ready'
  · by_cases hused' : ready' = true ∧ m' ++ hinge <+: text
    · obtain ⟨rfl, u, rfl⟩ := hused'
      rw [List.append_assoc] at ih ⊢
      exact (swing_comm_used h.symm (ih u.length (hshorter m' u) true false u rfl).symm ready).symm
    · exact swing_comm_unused h (fun hready hfront => hused ⟨hready, hfront⟩)
        (fun hready hfront => hused' ⟨hready, hfront⟩) hfalse

end Relink.Text

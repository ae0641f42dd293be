import Mathlib.Data.List.Basic
import Relink.Proofs.Decoding
import Relink.Walk

/-! # The parts of a path

A path inside a folder has the components of the folder and then its own name. So the names that a walk went
down by are the components below the root of the path that it comes to. -/

namespace Relink

/-! ### Pieces between separators -/

section Pieces
variable {α : Type} [DecidableEq α] {separator : α} {list piece : List α} {pieces others : List (List α)}

theorem splitAt_of_notMem (h : separator ∉ list) : splitAt separator list = [list] := by
  induction list with
  | nil => rfl
  | cons a list ih =>
    rw [List.mem_cons, not_or] at h
    rw [splitAt, if_neg (Ne.symm h.1), ih h.2]

theorem splitAt_append_separator (separator : α) (a b : List α) :
    splitAt separator (a ++ separator :: b) = splitAt separator a ++ splitAt separator b := by
  induction a with
  | nil => simp [splitAt]
  | cons x a ih =>
    rw [List.cons_append, splitAt, splitAt, ih]
    by_cases hx : x = separator
    · rw [if_pos hx, if_pos hx, List.cons_append]
    · rw [if_neg hx, if_neg hx]
      obtain ⟨piece, pieces, hpieces⟩ := List.exists_cons_of_ne_nil (splitAt_ne_nil separator a)
      rw [hpieces]
      rfl

theorem notMem_of_mem_splitAt (h : piece ∈ splitAt separator list) : separator ∉ piece := by
  induction list generalizing piece with
  | nil =>
    rw [List.mem_singleton.mp h]
    exact List.not_mem_nil
  | cons a list ih =>
    rw [splitAt] at h
    split at h
    · rcases List.mem_cons.mp h with rfl | h
      · exact List.not_mem_nil
      · exact ih h
    · rename_i ha
      obtain ⟨first, pieces, hpieces⟩ := List.exists_cons_of_ne_nil (splitAt_ne_nil separator list)
      rw [hpieces] at h ih
      rcases List.mem_cons.mp h with rfl | h
      · rw [List.mem_cons, not_or]
        exact ⟨Ne.symm ha, ih List.mem_cons_self⟩
      · exact ih (List.mem_cons_of_mem _ h)

omit [DecidableEq α] in
theorem joinWith_cons_cons (separator piece other : List α) (pieces : List (List α)) :
    joinWith separator (piece :: other :: pieces) = piece ++ separator ++ joinWith separator (other :: pieces) := rfl

omit [DecidableEq α] in
theorem joinWith_append {between : List α} {pieces others : List (List α)} (hne : pieces ≠ []) (hne' : others ≠ []) :
    joinWith between (pieces ++ others) = joinWith between pieces ++ between ++ joinWith between others := by
  induction pieces with
  | nil => exact absurd rfl hne
  | cons piece pieces ih =>
    cases pieces with
    | nil =>
      obtain ⟨other, others, rfl⟩ := List.exists_cons_of_ne_nil hne'
      rfl
    | cons second pieces =>
      rw [List.cons_append, List.cons_append, joinWith_cons_cons, joinWith_cons_cons, ← List.cons_append,
        ih (List.cons_ne_nil _ _)]
      simp

omit [DecidableEq α] in
theorem mem_of_mem_joinWith {a : α} {between : List α} (h : a ∈ joinWith between pieces) :
    a ∈ between ∨ ∃ piece ∈ pieces, a ∈ piece := by
  induction pieces with
  | nil => cases h
  | cons piece pieces ih =>
    cases pieces with
    | nil => exact Or.inr ⟨piece, List.mem_cons_self, h⟩
    | cons other pieces =>
      rw [joinWith_cons_cons, List.append_assoc, List.mem_append, List.mem_append] at h
      rcases h with h | h | h
      · exact Or.inr ⟨piece, List.mem_cons_self, h⟩
      · exact Or.inl h
      · exact (ih h).imp_right fun ⟨found, hmem, ha⟩ => ⟨found, List.mem_cons_of_mem _ hmem, ha⟩

theorem splitAt_joinWith (hne : pieces ≠ []) (h : ∀ piece ∈ pieces, separator ∉ piece) :
    splitAt separator (joinWith [separator] pieces) = pieces := by
  induction pieces with
  | nil => exact absurd rfl hne
  | cons piece pieces ih =>
    have hpiece := splitAt_of_notMem (h piece List.mem_cons_self)
    cases pieces with
    | nil => exact hpiece
    | cons other pieces =>
      rw [joinWith_cons_cons, List.append_assoc, List.singleton_append, splitAt_append_separator, hpiece,
        ih (List.cons_ne_nil _ _) fun piece hmem => h piece (List.mem_cons_of_mem _ hmem)]
      rfl

omit [DecidableEq α] in
theorem head?_joinWith (hne : piece ≠ []) (separator : List α) (pieces : List (List α)) :
    (joinWith separator (piece :: pieces)).head? = piece.head? := by
  obtain ⟨a, piece, rfl⟩ := List.exists_cons_of_ne_nil hne
  cases pieces <;> rfl

omit [DecidableEq α] in
theorem joinWith_ne_nil (h : ∀ piece ∈ pieces, piece ≠ []) (hne : pieces ≠ []) (separator : List α) :
    joinWith separator pieces ≠ [] := by
  obtain ⟨piece, pieces, rfl⟩ := List.exists_cons_of_ne_nil hne
  have hpiece := h piece List.mem_cons_self
  intro hnil
  have hhead := head?_joinWith hpiece separator pieces
  rw [hnil] at hhead
  exact hpiece (List.head?_eq_none_iff.mp hhead.symm)

/-- Pieces that are not empty and have no separator can be told from what they join to. -/
theorem joinWith_inj (h : ∀ piece ∈ pieces, piece ≠ [] ∧ separator ∉ piece)
    (hother : ∀ piece ∈ others, piece ≠ [] ∧ separator ∉ piece)
    (hjoin : joinWith [separator] pieces = joinWith [separator] others) : pieces = others := by
  by_cases hnil : pieces = []
  · subst hnil
    by_contra hne
    exact joinWith_ne_nil (fun piece hmem => (hother piece hmem).1) (Ne.symm hne) _ hjoin.symm
  · by_cases hnil' : others = []
    · subst hnil'
      exact absurd hjoin (joinWith_ne_nil (fun piece hmem => (h piece hmem).1) hnil _)
    · rw [← splitAt_joinWith hnil fun piece hmem => (h piece hmem).2, hjoin,
        splitAt_joinWith hnil' fun piece hmem => (hother piece hmem).2]

end Pieces

/-! ### Components -/

namespace Path

/-- A name that stands for itself as a part of a path. -/
def IsPlain (name : Bytes) : Prop := name ≠ [] ∧ name ≠ [dot] ∧ name ≠ [dot, dot] ∧ slash ∉ name

instance (name : Bytes) : Decidable (IsPlain name) := inferInstanceAs (Decidable (_ ∧ _ ∧ _ ∧ _))

variable {folder root path name : Bytes} {names : List Bytes}

theorem ofPart?_eq_some_iff {part : Bytes} : Component.ofPart? part = some (.name name) ↔
    part = name ∧ part ≠ [] ∧ part ≠ [dot] ∧ part ≠ [dot, dot] := by
  rw [Component.ofPart?]
  split
  · rename_i h
    simp only [reduceCtorEq, false_iff]
    rintro ⟨-, hempty, hdot, -⟩
    exact h.elim hempty hdot
  · rename_i h
    split
    · rename_i hdots
      simp [hdots]
    · rename_i hdots
      simp only [Option.some.injEq, Component.name.injEq]
      exact ⟨fun he => ⟨he, fun hempty => h (Or.inl hempty), fun hdot => h (Or.inr hdot), hdots⟩, And.left⟩

theorem ofPart?_ne_root (part : Bytes) : Component.ofPart? part ≠ some .root := by
  rw [Component.ofPart?]
  repeat' split
  all_goals simp

theorem written_of_ofPart? {part : Bytes} {component : Component} (h : Component.ofPart? part = some component) :
    component.written = part := by
  rw [Component.ofPart?] at h
  split at h
  · cases h
  · split at h
    · rename_i hdots
      cases h
      exact hdots.symm
    · cases h
      rfl

/-- Parts, each behind a slash. -/
def behind (parts : List Bytes) : Bytes := parts.flatMap (slash :: ·)

theorem joinWith_eq_behind (part : Bytes) (parts : List Bytes) :
    joinWith [slash] (part :: parts) = part ++ behind parts := by
  induction parts generalizing part with
  | nil => simp [joinWith, behind]
  | cons next parts ih =>
    rw [joinWith_cons_cons, ih]
    simp [behind]

/-- What the parts of a path stand for behind its first component. -/
def inner (path : Bytes) : List Component := (splitAt slash path).filterMap Component.ofPart?

theorem inner_of_notMem (h : slash ∉ path) : inner path = (Component.ofPart? path).toList := by
  rw [inner, splitAt_of_notMem h]
  cases hpart : Component.ofPart? path <;> simp [hpart]

theorem components_slash (path : Bytes) : components (slash :: path) = .root :: inner path := by
  rw [components, splitAt, if_pos rfl]
  simp [splitAt_ne_nil, inner]

/-- The components of what follows a slash are added, unless the path before it was empty. -/
theorem components_append_slash (hne : folder ≠ []) (path : Bytes) :
    components (folder ++ slash :: path) = components folder ++ inner path := by
  obtain ⟨first, parts, hparts⟩ := List.exists_cons_of_ne_nil (splitAt_ne_nil slash folder)
  have hempty : ¬ (first = [] ∧ parts = []) := by
    rintro ⟨rfl, rfl⟩
    have hjoin := joinWith_splitAt slash folder
    rw [hparts] at hjoin
    exact hne hjoin.symm
  rw [components, splitAt_append_separator, components, hparts, inner]
  simp only [List.cons_append, List.filterMap_append, List.append_eq_nil_iff, splitAt_ne_nil, and_false, if_false]
  by_cases hfirst : first = []
  · have hparts : parts ≠ [] := fun hnil => hempty ⟨hfirst, hnil⟩
    simp [hfirst, hparts]
  · rw [if_neg hfirst, if_neg hfirst]
    split <;> simp

theorem components_join_of_ne (hne : folder ≠ []) (hrelative : path.head? ≠ some slash) :
    components (join folder path) = components folder ++ inner path := by
  rw [join, if_neg hrelative]
  split
  · rename_i hend
    obtain ⟨above, rfl⟩ := List.getLast?_eq_some_iff.mp (hend.resolve_left hne)
    rw [List.append_assoc, List.singleton_append]
    by_cases htop : above = []
    · simp [htop, components_slash, inner, splitAt, Component.ofPart?]
    · simp [components_append_slash htop, inner, splitAt, Component.ofPart?]
  · exact components_append_slash hne path

theorem components_join (folder : Bytes) (hname : IsPlain name) :
    components (join folder name) = components folder ++ [.name name] := by
  obtain ⟨hempty, hdot, hdots, hslash⟩ := hname
  have hpart : Component.ofPart? name = some (.name name) := ofPart?_eq_some_iff.mpr ⟨rfl, hempty, hdot, hdots⟩
  have hrelative : name.head? ≠ some slash := fun hhead => hslash (List.mem_of_mem_head? hhead)
  by_cases hne : folder = []
  · rw [hne, join, if_neg hrelative, if_pos (Or.inl rfl), List.nil_append, components, splitAt_of_notMem hslash]
    simp [hempty, hdot, hpart, components, splitAt]
  · rw [components_join_of_ne hne hrelative, inner_of_notMem hslash, hpart]
    rfl

/-- The names that a walk went down by are the components below its root. -/
theorem components_pathOf (root : Bytes) (h : ∀ name ∈ names, IsPlain name) :
    components (Walk.pathOf root names) = components root ++ names.map .name := by
  induction names generalizing root with
  | nil => rw [Walk.pathOf, List.foldl_nil, List.map_nil, List.append_nil]
  | cons name names ih =>
    have hstep : Walk.pathOf root (name :: names) = Walk.pathOf (join root name) names := rfl
    rw [hstep, ih _ fun other hother => h other (List.mem_cons_of_mem _ hother),
      components_join _ (h name List.mem_cons_self), List.append_assoc]
    rfl

theorem below?_pathOf (root : Bytes) (h : ∀ name ∈ names, IsPlain name) :
    below? root (Walk.pathOf root names) = some (names.map .name) := by
  rw [below?, after?_eq_some_iff]
  exact components_pathOf root h

end Path
end Relink

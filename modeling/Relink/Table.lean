import Relink.Text.Utf8

/-! # Tables

A table has one line for each of its keys. The keys are texts, and the lines are in the order of the
keys' bytes. -/

namespace Relink

/-- Lines with different keys, in order. -/
structure Table (α : Type) where
  lines : List (Text × α)
  ordered : lines.Pairwise fun a b => Utf8.encode a.1 < Utf8.encode b.1

namespace Table
variable {α β : Type} {key name : Text} {a : α}

/-- The table without lines. -/
def empty : Table α := ⟨[], .nil⟩

/-- What stands in the line of a key. -/
def find? (table : Table α) (key : Text) : Option α := (table.lines.find? (·.1 = key)).map (·.2)

/-- The number of keys. -/
def size (table : Table α) : Nat := table.lines.length

/-- Whether there is no key. -/
def isEmpty (table : Table α) : Bool := table.lines.isEmpty

/-- Lines with that of a key changed. A key that has no line gets one where it belongs. -/
def changeLine (key : Text) (change : Option α → α) : List (Text × α) → List (Text × α)
  | [] => [(key, change none)]
  | (other, a) :: lines =>
    if key = other then (other, change (some a)) :: lines
    else if Utf8.encode key < Utf8.encode other then (key, change none) :: (other, a) :: lines
    else (other, a) :: changeLine key change lines

theorem mem_changeLine {change : Option α → α} {lines : List (Text × α)} {line : Text × α}
    (h : line ∈ changeLine key change lines) : line.1 = key ∨ ∃ old ∈ lines, old.1 = line.1 := by
  induction lines with
  | nil => exact Or.inl (by rw [List.mem_singleton.mp h])
  | cons first lines ih =>
    unfold changeLine at h
    split at h
    · rcases List.mem_cons.mp h with rfl | h
      · exact Or.inr ⟨first, List.mem_cons_self, rfl⟩
      · exact Or.inr ⟨line, List.mem_cons_of_mem _ h, rfl⟩
    · split at h
      · rcases List.mem_cons.mp h with rfl | h
        · exact Or.inl rfl
        · exact Or.inr ⟨line, h, rfl⟩
      · rcases List.mem_cons.mp h with rfl | h
        · exact Or.inr ⟨first, List.mem_cons_self, rfl⟩
        · rcases ih h with h | ⟨old, hold, he⟩
          · exact Or.inl h
          · exact Or.inr ⟨old, List.mem_cons_of_mem _ hold, he⟩

theorem ordered_changeLine (key : Text) (change : Option α → α) {lines : List (Text × α)}
    (h : lines.Pairwise fun a b => Utf8.encode a.1 < Utf8.encode b.1) :
    (changeLine key change lines).Pairwise fun a b => Utf8.encode a.1 < Utf8.encode b.1 := by
  induction lines with
  | nil => exact List.pairwise_singleton _ _
  | cons first lines ih =>
    obtain ⟨hfirst, hlines⟩ := List.pairwise_cons.mp h
    unfold changeLine
    split
    · exact List.pairwise_cons.mpr ⟨hfirst, hlines⟩
    · rename_i hne
      split
      · rename_i hlt
        refine List.pairwise_cons.mpr ⟨fun line hmem => ?_, h⟩
        rcases List.mem_cons.mp hmem with rfl | hmem
        · exact hlt
        · exact List.lt_trans hlt (hfirst line hmem)
      · rename_i hnlt
        refine List.pairwise_cons.mpr ⟨fun line hmem => ?_, ih hlines⟩
        rcases mem_changeLine hmem with hkey | ⟨old, hold, he⟩
        · rw [hkey]
          exact Std.lt_of_le_of_ne hnlt fun he => hne (Utf8.encode_injective he).symm
        · exact he ▸ hfirst old hold

/-- The table with the line of a key changed, or added. -/
def update (table : Table α) (key : Text) (change : Option α → α) : Table α :=
  ⟨changeLine key change table.lines, ordered_changeLine key change table.ordered⟩

/-- The table with something else in each line. -/
def map (f : α → β) (table : Table α) : Table β :=
  ⟨table.lines.map fun line => (line.1, f line.2), List.pairwise_map.mpr table.ordered⟩

/-! ### Looking up -/

@[simp] theorem find?_empty (name : Text) : (empty : Table α).find? name = none := rfl

theorem find?_eq_none_of_lt {lines : List (Text × α)}
    (h : ∀ line ∈ lines, Utf8.encode name < Utf8.encode line.1) : lines.find? (·.1 = name) = none := by
  refine List.find?_eq_none.mpr fun line hmem => ?_
  simp only [decide_eq_true_eq]
  rintro rfl
  exact List.lt_irrefl _ (h line hmem)

theorem find?_changeLine (key name : Text) (change : Option α → α) {lines : List (Text × α)}
    (h : lines.Pairwise fun a b => Utf8.encode a.1 < Utf8.encode b.1) :
    ((changeLine key change lines).find? (·.1 = name)).map (·.2) =
      if key = name then some (change ((lines.find? (·.1 = name)).map (·.2)))
      else (lines.find? (·.1 = name)).map (·.2) := by
  induction lines with
  | nil => by_cases hn : key = name <;> simp [changeLine, hn]
  | cons first lines ih =>
    obtain ⟨hfirst, hlines⟩ := List.pairwise_cons.mp h
    have ih := ih hlines
    by_cases he : key = first.1
    · rw [changeLine, if_pos he]
      by_cases hn : first.1 = name <;> simp [he, hn]
    by_cases hlt : Utf8.encode key < Utf8.encode first.1
    · rw [changeLine, if_neg he, if_pos hlt]
      by_cases hn : key = name
      · have hnone : (first :: lines).find? (·.1 = name) = none := by
          refine find?_eq_none_of_lt fun line hmem => hn ▸ ?_
          rcases List.mem_cons.mp hmem with rfl | hmem
          · exact hlt
          · exact List.lt_trans hlt (hfirst line hmem)
        rw [show (first.1, first.2) :: lines = first :: lines from rfl, hnone]
        simp [hn]
      · simp [hn, List.find?_cons]
    · rw [changeLine, if_neg he, if_neg hlt]
      by_cases hfn : first.1 = name
      · have hn : ¬ key = name := fun h => he (h.trans hfn.symm)
        simp [hfn, hn]
      · simpa [List.find?_cons, hfn] using ih

/-- A change concerns the line of its key only. -/
theorem find?_update (table : Table α) (key name : Text) (change : Option α → α) :
    (table.update key change).find? name =
      if key = name then some (change (table.find? name)) else table.find? name :=
  find?_changeLine key name change table.ordered

theorem find?_map (f : α → β) (table : Table α) (name : Text) :
    (table.map f).find? name = (table.find? name).map f := by
  simp [find?, map, List.find?_map, Function.comp_def]

/-- A table holds what its lines say, each key having one line. -/
theorem find?_eq_some_iff {table : Table α} : table.find? name = some a ↔ (name, a) ∈ table.lines := by
  obtain ⟨lines, h⟩ := table
  simp only [find?]
  induction lines with
  | nil => simp
  | cons first lines ih =>
    obtain ⟨key, b⟩ := first
    obtain ⟨hfirst, hlines⟩ := List.pairwise_cons.mp h
    by_cases hn : key = name
    · subst hn
      have hnot : (key, a) ∉ lines := fun hmem =>
        absurd (hfirst (key, a) hmem) (List.lt_irrefl _)
      simp [hnot, eq_comm]
    · rw [List.find?_cons_of_neg (by simpa using hn), ih hlines, List.mem_cons]
      simp [Ne.symm hn]

/-- A table that is filled from the lines of another, one after the other, has a line for each of them. -/
theorem find?_fill (f : α → β) (table : Table α) (name : Text) :
    (table.lines.foldl (fun filled line => filled.update line.1 fun _ => f line.2) empty).find? name =
      (table.find? name).map f := by
  obtain ⟨lines, h⟩ := table
  suffices hfill : ∀ filled : Table β, (lines.foldl (fun filled line => filled.update line.1 fun _ => f line.2)
      filled).find? name = ((lines.find? (·.1 = name)).map fun line => f line.2).or (filled.find? name) by
    rw [hfill empty, find?_empty, Option.or_none, find?, Option.map_map]
    rfl
  induction lines with
  | nil => simp
  | cons first lines ih =>
    obtain ⟨hfirst, hlines⟩ := List.pairwise_cons.mp h
    intro filled
    rw [List.foldl_cons, ih hlines, find?_update]
    by_cases hn : first.1 = name
    · -- The lines that follow have other keys, so what was filled in stays.
      rw [find?_eq_none_of_lt fun line hmem => hn ▸ hfirst line hmem]
      simp [hn]
    · simp [hn]

end Table

end Relink

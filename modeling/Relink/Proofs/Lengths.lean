import Mathlib.Algebra.Group.Nat.Defs
import Relink.Proofs.Naming

/-! # How long a shown path is

Bytes that are no text show as replacement characters of three bytes each, so what is shown has at most three times
as many bytes. The parts of a path that can be used are short, and so is the name of its file in an archive. -/

namespace Relink

namespace Utf8
variable {progress : Progress} {bytes : Bytes}

/-- The bytes of what reading yields, shown. -/
def shownLength (reads : List (Option Char)) : Nat := (encode (reads.map (·.getD replacement))).length

/-- The bytes read that have not shown yet, counted once for all of them. -/
def Progress.pending : Progress → Nat
  | ready => 0
  | inside .. => 1

theorem shownLength_append (a b : List (Option Char)) : shownLength (a ++ b) = shownLength a + shownLength b := by
  simp only [shownLength, encode, List.map_append, List.flatMap_append, List.length_append]

theorem shownLength_char (c : Char) : shownLength [some c] = c.utf8Size := by
  simp [shownLength, encode, String.length_utf8EncodeChar]

theorem length_lead (n : Nat) : shownLength (lead n).2 + 3 * (lead n).1.pending ≤ 3 := by
  have hsize : ∀ n < 0x80, (Char.ofNat n).utf8Size ≤ 3 := by decide
  unfold lead
  split
  · rename_i hascii
    rw [shownLength_char]
    exact hsize n hascii
  · repeat' split
    all_goals exact Nat.le_refl 3

theorem length_step (progress : Progress) (b : UInt8) :
    shownLength (step progress b).2 + 3 * (step progress b).1.pending ≤ 3 * (progress.pending + 1) := by
  cases progress with
  | ready => exact length_lead b.toNat
  | inside low high more value =>
    rw [step]
    split
    · cases more with
      | zero =>
        have hsize := Char.utf8Size_le_four (Char.ofNat (value * 64 + (b.toNat - 0x80)))
        simp only [advance, shownLength_char, Progress.pending]
        omega
      | succ more => exact Nat.le_add_left 3 3
    · have hnow : shownLength [none] = 3 := by decide
      have hnext := length_lead b.toNat
      have hsplit := shownLength_append [none] (lead b.toNat).2
      rw [List.singleton_append, hnow] at hsplit
      show shownLength (none :: (lead b.toNat).2) + 3 * (lead b.toNat).1.pending ≤ 3 * (1 + 1)
      omega

theorem shownLength_scan (progress : Progress) (bytes : Bytes) :
    shownLength (scan progress bytes) ≤ 3 * (progress.pending + bytes.length) := by
  induction bytes generalizing progress with
  | nil => cases progress <;> exact Nat.le_refl _
  | cons b bytes ih =>
    have hstep := length_step progress b
    have hrest := ih (step progress b).1
    rw [scan_cons, shownLength_append, List.length_cons]
    omega

/-- A byte shows in three bytes at most. -/
theorem length_encode_decodeLossy (bytes : Bytes) : (encode (decodeLossy bytes)).length ≤ 3 * bytes.length := by
  have hscan := shownLength_scan .ready bytes
  rwa [Progress.pending, Nat.zero_add] at hscan

end Utf8

/-! ### The parts of a path -/

namespace Path
variable {root path : Bytes} {parts : List Bytes} {components : List Component}

/-- The length of pieces, each with a separator. -/
def total : List Bytes → Nat
  | [] => 0
  | piece :: pieces => piece.length + 1 + total pieces

theorem total_cons (piece : Bytes) (pieces : List Bytes) :
    total (piece :: pieces) = piece.length + 1 + total pieces := rfl

theorem total_le_append (a b : List Bytes) : total b ≤ total (a ++ b) := by
  induction a with
  | nil => exact Nat.le_refl _
  | cons piece a ih =>
    rw [List.cons_append, total_cons]
    omega

theorem total_splitAt (separator : UInt8) (list : Bytes) : total (splitAt separator list) = list.length + 1 := by
  induction list with
  | nil => rfl
  | cons a list ih =>
    rw [splitAt]
    split
    · rw [total_cons, ih, List.length_nil, List.length_cons]
      omega
    · obtain ⟨piece, pieces, hpieces⟩ := List.exists_cons_of_ne_nil (splitAt_ne_nil separator list)
      rw [hpieces, total_cons] at ih
      rw [hpieces]
      show total ((a :: piece) :: pieces) = _
      rw [total_cons, List.length_cons, List.length_cons]
      omega

theorem total_filterMap_le (parts : List Bytes) :
    total ((parts.filterMap Component.ofPart?).map Component.written) ≤ total parts := by
  induction parts with
  | nil => exact Nat.le_refl _
  | cons part parts ih =>
    rw [total_cons, List.filterMap_cons]
    cases hpart : Component.ofPart? part with
    | none => exact Nat.le_trans ih (Nat.le_add_left _ _)
    | some component =>
      rw [List.map_cons, total_cons, written_of_ofPart? hpart]
      exact Nat.add_le_add_left ih _

/-- The components of a path are no longer than the path, but for the slash that it may start with. -/
theorem total_components_le (path : Bytes) :
    total ((Path.components path).map Component.written) ≤ path.length + 2 := by
  obtain ⟨first, parts, hparts⟩ := List.exists_cons_of_ne_nil (splitAt_ne_nil slash path)
  have htotal := total_splitAt slash path
  have hrest := total_filterMap_le parts
  rw [hparts, total_cons] at htotal
  have hone : ∀ component : Component, component.written.length = 1 →
      total ((component :: parts.filterMap Component.ofPart?).map Component.written) ≤ path.length + 2 := by
    intro component hwritten
    rw [List.map_cons, total_cons, hwritten]
    omega
  rw [Path.components, hparts]
  dsimp only
  split
  · split
    · exact Nat.zero_le _
    · exact hone .root rfl
  · split
    · exact hone .current rfl
    · have hall := total_filterMap_le (first :: parts)
      rw [total_cons, List.filterMap_cons] at hall
      cases hfirst : Component.ofPart? first with
      | none =>
        rw [hfirst] at hall
        exact Nat.le_trans hall (by omega)
      | some component =>
        rw [hfirst] at hall
        exact Nat.le_trans hall (by omega)

theorem total_below_le (h : below? root path = some components) :
    total (components.map Component.written) ≤ path.length + 2 := by
  have hall := total_components_le path
  rw [after?_eq_some_iff.mp h, List.map_append] at hall
  exact Nat.le_trans (total_le_append _ _) hall

end Path

/-! ### The name of a packed file -/

namespace ProjectFile

theorem length_display_le (components : List Path.Component) :
    (Utf8.encode (display components)).length ≤ 3 * Path.total (components.map Path.Component.written) := by
  induction components with
  | nil => exact Nat.zero_le _
  | cons component components ih =>
    have hfirst := Utf8.length_encode_decodeLossy component.written
    rw [List.map_cons, Path.total_cons]
    cases components with
    | nil =>
      show (Utf8.encode (Utf8.decodeLossy component.written)).length ≤ _
      omega
    | cons other components =>
      have hsplit : Utf8.encode (display (component :: other :: components)) =
          Utf8.encode (Utf8.decodeLossy component.written) ++ [Path.slash] ++
            Utf8.encode (display (other :: components)) := by
        simp only [display, List.map_cons, joinWith_cons_cons, Utf8.encode, List.flatMap_append]
        rfl
      rw [hsplit, List.length_append, List.length_append, List.length_singleton]
      omega

theorem length_relative_le {root path : Bytes} {file : ProjectFile} (h : ofPath? root path = some file) :
    (Utf8.encode file.relative).length ≤ 3 * (path.length + 2) := by
  obtain ⟨components, extension, hcomponents, -, rfl⟩ := ofPath?_eq_some_iff.mp h
  exact Nat.le_trans (length_display_le components) (Nat.mul_le_mul_left 3 (Path.total_below_le hcomponents))

end ProjectFile

theorem Node.length_le_of_read {tree : Node} {working : Location} {path content : Bytes}
    (h : tree.read working path = .ok content) : path.length ≤ pathLimit := by
  rw [read, stat] at h
  cases hlocate : tree.locate working path with
  | error error =>
    rw [hlocate] at h
    cases h
  | ok location => exact length_le_of_locate hlocate

/-- The length of a packed file's name fits in two bytes. -/
theorem Run.length_relative_lt {tree : Node} {root : Bytes} {files : List ProjectFile}
    (h : ∀ file ∈ files, ProjectFile.ofPath? root file.path = some file) {file : ProjectFile × Bytes}
    (hmem : file ∈ contents tree files) : (Utf8.encode file.1.relative).length < 0x10000 := by
  have hrelative := ProjectFile.length_relative_le (h _ (mem_of_mem_contents hmem))
  obtain ⟨read, -, hread⟩ := List.mem_filterMap.mp hmem
  obtain ⟨content, hcontent, rfl⟩ := Option.map_eq_some_iff.mp hread
  have hpath : read.path.length ≤ pathLimit := by
    cases hresult : tree.read [] read.path with
    | ok content => exact Node.length_le_of_read hresult
    | error error =>
      rw [hresult] at hcontent
      cases hcontent
  rw [pathLimit] at hpath
  dsimp only at hrelative ⊢
  omega

end Relink

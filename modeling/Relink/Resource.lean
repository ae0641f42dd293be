import Relink.Text.Utf8

/-! # Resource paths

Inside a project a file is referred to by its resource path: the scheme `res://` and the path below
the project's root. A reference is repaired by the last name of its path. When several files share a
name, the folders they lie in rank them. -/

namespace Relink.Resource

/-- What every resource path starts with. -/
def scheme : Text := "res://".toList

/-- The extensions of the files that are repaired and packed. -/
def editable : List Text := ["gd".toList, "tscn".toList, "tres".toList]

/-- The extensions of the files that a reference can lead to. -/
def indexable : List Text := ["gd".toList, "tres".toList, "res".toList]

/-- The last name of a path; slashes at its end do not count. -/
def basename (path : Text) : Text :=
  ((path.reverse.dropWhile (· = '/')).takeWhile (· ≠ '/')).reverse

/-- Whether a name ends in a dot and an indexable extension. -/
def hasIndexableExtension (name : Text) : Bool :=
  indexable.any fun extension => ('.' :: extension).isSuffixOf name

/-- The rank of a resource path, the least being the best: 0 below a folder `Scripts`, 1 below a folder
    `VoxelToolFiles`, 2 elsewhere. -/
def rank (path : Text) : Nat :=
  if Text.contains "/Scripts/".toList path then 0
  else if Text.contains "/VoxelToolFiles/".toList path then 1
  else 2

/-- What candidates of one name are ordered by: the rank, the number of bytes, then the bytes. -/
def sortKey (path : Text) : List Nat :=
  let bytes := Utf8.encode path
  rank path :: bytes.length :: bytes.map UInt8.toNat

/-- Whether a candidate comes before another, or is the same. -/
def precedes (a b : Text) : Bool := !decide (sortKey b < sortKey a)

theorem precedes_iff {a b : Text} : precedes a b = true ↔ ¬ sortKey b < sortKey a := by
  simp only [precedes, Bool.not_eq_true', decide_eq_false_iff_not]

theorem precedes_total (a b : Text) : precedes a b = true ∨ precedes b a = true := by
  simp only [precedes_iff]
  by_cases h : sortKey b < sortKey a
  · exact Or.inr (List.lt_asymm h)
  · exact Or.inl h

theorem precedes_trans (a b c : Text) (hab : precedes a b = true) (hbc : precedes b c = true) :
    precedes a c = true := by
  rw [precedes_iff] at *
  exact List.not_lt.mpr (List.le_trans (List.not_lt.mp hab) (List.not_lt.mp hbc))

theorem precedes_antisymm {a b : Text} (hab : precedes a b = true) (hba : precedes b a = true) : a = b := by
  rw [precedes_iff] at *
  have h := List.le_antisymm (List.not_lt.mp hab) (List.not_lt.mp hba)
  simp only [sortKey, List.cons.injEq] at h
  exact Utf8.encode_injective ((List.map_inj_right fun _ _ => UInt8.toNat_inj.mp).mp h.2.2)

end Relink.Resource

import Relink.Change

/-! # Relocations

Some resources moved in a way that their names do not tell. The table lists them with where they went;
one that is gone without a successor is only reported. The relocations are applied to the whole text,
in the order of the table, before any reference is looked for. -/

namespace Relink

namespace Relocation

/-- Where a resource went. -/
inductive Destination where
  | moved (path : Text)
  | removed
  deriving DecidableEq, Repr

end Relocation

/-- A resource path that is no longer in use. -/
structure Relocation where
  old : Text
  destination : Relocation.Destination
  deriving DecidableEq, Repr

namespace Relocation

/-- The known relocations. -/
def table : List Relocation :=
  [⟨"res://blocks/mesher.tres".toList, .moved "res://VoxelToolFiles/voxel_mesher_blocky.tres".toList⟩,
   ⟨"res://blocks/voxel_library.tres".toList, .moved "res://VoxelToolFiles/voxel_blocky_library.tres".toList⟩,
   ⟨"res://blocky_game/save".toList, .removed⟩]

/-- What is recorded where the old path occurs. -/
def outcome (relocation : Relocation) : Change.Outcome :=
  match relocation.destination with
  | .moved path => .replaced path
  | .removed => .deprecated

/-- The record made where the old path occurs. -/
def change (relocation : Relocation) : Change :=
  ⟨.hardcoded, relocation.old, relocation.outcome⟩

/-- The text with the old path replaced wherever it occurs, if there is a new one. -/
def apply (relocation : Relocation) (text : Text) : Text :=
  match relocation.destination with
  | .moved path => Text.replaceAll relocation.old path text
  | .removed => text

/-- Applies relocations one after the other. Each one whose old path occurs in the text that it is
    applied to is recorded. -/
def applyAll : List Relocation → Text → Text × List Change
  | [], text => (text, [])
  | relocation :: relocations, text =>
    if Text.contains relocation.old text then
      let (text, changes) := applyAll relocations (relocation.apply text)
      (text, relocation.change :: changes)
    else applyAll relocations text

end Relocation

end Relink

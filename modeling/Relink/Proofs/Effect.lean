import Relink.Proofs.Lengths
import Relink.Proofs.Writing

/-! # What a run leaves behind

A run that fails leaves the file tree as it was. One that succeeds has read all that it packs before it writes, and
then makes or replaces the file that the output leads to, and no other. What a library for archive files finds in that
file is an entry for each editable file that could be read. -/

namespace Relink.Run

variable {system : System} {tree : Node} {working : Location} {settings : Settings} {failure : Failure}
  {summary : Summary} {root : Bytes} {files : List ProjectFile} {complaints : List Text}

theorem tree_of_error (h : (run system tree working settings).outcome = .error failure) :
    (run system tree working settings).tree = tree := by
  rcases run_cases system tree working settings with ⟨_, -, htree⟩ | ⟨_, _, _, -, -, -, -, houtcome⟩
  · exact htree
  · cases houtcome.symm.trans h

theorem length_name_lt (h : discover system tree working settings root = .ok (files, complaints))
    {entry : Entry} (hmem : entry ∈ entriesOf tree files) : (Utf8.encode entry.name).length < 0x10000 := by
  have hentry := List.mem_map_of_mem (f := fun entry => (entry.name, Utf8.encode entry.content)) hmem
  rw [map_entriesOf] at hentry
  obtain ⟨file, hfile, hsame⟩ := List.mem_map.mp hentry
  obtain ⟨rules, -, rfl⟩ := exists_of_discover h
  rw [← (Prod.mk.inj hsame).1]
  exact length_relative_lt (fun _ hmem => Walk.ofPath?_of_mem_projectFiles hmem) hfile

end Relink.Run

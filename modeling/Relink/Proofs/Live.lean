import Relink.Proofs.Surroundings

/-! # References that are live

A reference is live when its path is that of a file of the project. The repair redirects such a reference in
two cases only: a relocation applies to its path, since these come before any file is looked up, or another
file of a lesser rank has its name to itself. In all other cases the reference stays as it is written. -/

namespace Relink
open Reference Segment

/-- A project in `/p` with two scripts of one name, one of which has the lesser rank, and a resource that a
    relocation has the path of. -/
def ProjectFile.shadowed : List ProjectFile :=
  [⟨Utf8.encode "/p/Scripts/U.gd".toList, "Scripts/U.gd".toList, "gd".toList⟩,
   ⟨Utf8.encode "/p/VoxelToolFiles/U.gd".toList, "VoxelToolFiles/U.gd".toList, "gd".toList⟩,
   ⟨Utf8.encode "/p/blocks/mesher.tres".toList, "blocks/mesher.tres".toList, "tres".toList⟩]

namespace Index
variable {index : Index} {reference : Reference} {source : Text}

/-! ### References that are not redirected -/

/-- A stage copies a reference that is not redirected, whatever stands around it. -/
theorem repairForm_kept (form : Form) (hspelled : Spelled reference source) (hconsidered : considers reference = true)
    (hkept : ∀ target, index.verdict reference ≠ .redirect target) (x y : Text) :
    (index.repairForm form (x ++ (source ++ y))).text =
      (index.repairForm form x).text ++ (source ++ (index.repairForm form y).text) := by
  obtain ⟨middle, hmiddle, hrepair⟩ := repairForm_join index form hspelled hconsidered x y
  have hcopied : Segment.text (middle.map (index.redirectForm form)) = source := by
    rcases hmiddle with rfl | ⟨-, rfl⟩
    · rw [List.map_singleton, redirectForm_of_kept hkept, text_cons, Segment.text, List.flatMap_nil, List.append_nil,
        Segment.source]
    · rw [map_redirectForm_plains, text_plains]
  rw [hrepair, hcopied]

/-- The repair copies a reference that is neither relocated nor redirected. -/
theorem repair_kept (hspelled : Spelled reference source) (hconsidered : considers reference = true)
    (hunmoved : ∀ relocation ∈ Relocation.table, ∀ path, relocation.destination = .moved path →
      ¬ relocation.old <:+: reference.quoted)
    (hkept : ∀ target, index.verdict reference ≠ .redirect target) (x y : Text) :
    (index.repair (x ++ (source ++ y))).text = (index.repair x).text ++ (source ++ (index.repair y).text) := by
  have htable : ∀ relocation ∈ Relocation.table, relocation ∈ Relocation.table := fun _ h => h
  have hmoved := Relocation.applyAll_around htable hspelled x y
  rw [Relocation.applyAll_spelled_eq_self htable hspelled hunmoved] at hmoved
  simp only [repair_eq_stages, textBefore, hmoved, repairForm_kept _ hspelled hconsidered hkept]

/-! ### Files of the project -/

variable {files : List ProjectFile} {file : ProjectFile} {name target : Text}

/-- A name that leads to one file leads past another one of that name only by a lesser rank. -/
theorem eq_or_rank_lt_of_resolve (hunique : (ofFiles files).resolve name = .unique target) (hfile : file ∈ files)
    (hindexable : file.isIndexable = true) (hname : Resource.basename file.canonical = name) :
    target = file.canonical ∨ Resource.rank target < Resource.rank file.canonical := by
  rw [ofFiles, resolve_eq_ofRanked, Resolution.ofRanked_eq_unique_iff (pairwise_ranked _ _)] at hunique
  have hcandidate : file.canonical ∈ ranked ((files.filter ProjectFile.isIndexable).map ProjectFile.canonical) name := by
    refine (ranked_perm _ _).mem_iff.mpr (List.mem_filter.mpr ⟨?_, decide_eq_true hname⟩)
    exact List.mem_map_of_mem (List.mem_filter.mpr ⟨hfile, hindexable⟩)
  obtain ⟨-, hleast⟩ := Resource.mem_foremost_iff.mp (hunique ▸ List.mem_singleton_self target)
  rcases Nat.lt_or_ge (Resource.rank target) (Resource.rank file.canonical) with hlt | hge
  · exact Or.inr hlt
  · left
    have hforemost := Resource.mem_foremost_iff.mpr ⟨hcandidate, fun other hother => hge.trans (hleast other hother)⟩
    rw [hunique] at hforemost
    exact (List.mem_singleton.mp hforemost).symm

theorem verdict_ne_redirect_of_live (hform : reference.form ≠ .relativeLoad) (hfile : file ∈ files)
    (hindexable : file.isIndexable = true) (hlive : reference.path = file.canonical)
    (hrank : ∀ other ∈ files, other.isIndexable = true →
      (ofFiles files).resolve reference.name = .unique other.canonical →
      ¬ Resource.rank other.canonical < Resource.rank file.canonical) (target : Text) :
    (ofFiles files).verdict reference ≠ .redirect target := by
  intro hverdict
  obtain ⟨-, hunique, hleads⟩ := verdict_eq_redirect_iff.mp hverdict
  obtain ⟨other, hother, hotherIndexable, rfl, -⟩ := exists_of_resolve hunique
  have hname : Resource.basename file.canonical = reference.name := by rw [← hlive, name]
  rcases eq_or_rank_lt_of_resolve hunique hfile hindexable hname with heq | hlt
  · have hsame : reference.leadsTo other.canonical = true := by
      cases reference with
      | relativeLoad => exact absurd rfl hform
      | load => exact decide_eq_true (hlive.trans heq.symm)
      | extResource => exact decide_eq_true (hlive.trans heq.symm)
    rw [hsame] at hleads
    cases hleads
  · exact hrank other hother hotherIndexable hunique hlt

/-- A reference to a file of the project stays as it is written, unless a relocation applies to its path or its
    name leads to another file of a lesser rank. -/
theorem repair_live {form : Form} (hfile : file ∈ files) (hindexable : file.isIndexable = true) {x y : Text}
    (hhit : hit? form x.getLast? (source ++ y) = some ⟨reference, source, y⟩)
    (hform : form = .load ∨ form = .extResource ∧ Resource.hasIndexableExtension reference.name = true)
    (hlive : reference.path = file.canonical)
    (hunmoved : ∀ relocation ∈ Relocation.table, ∀ path, relocation.destination = .moved path →
      ¬ relocation.old <:+: reference.path)
    (hrank : ∀ other ∈ files, other.isIndexable = true →
      (ofFiles files).resolve reference.name = .unique other.canonical →
      ¬ Resource.rank other.canonical < Resource.rank file.canonical) :
    ((ofFiles files).repair (x ++ source ++ y)).text =
      ((ofFiles files).repair x).text ++ source ++ ((ofFiles files).repair y).text := by
  obtain ⟨hreference, hspelled, -, -⟩ := hit?_eq_some_iff.mp hhit
  have hrelative : reference.form ≠ .relativeLoad := by
    rw [hreference]
    rcases hform with rfl | ⟨rfl, -⟩ <;> decide
  have hquoted : reference.quoted = reference.path := by
    cases reference with
    | relativeLoad => exact absurd rfl hrelative
    | _ => rfl
  have hconsidered : considers reference = true := by
    cases reference with
    | extResource =>
      rcases hform with rfl | ⟨-, hextension⟩
      · cases hreference
      · exact hextension
    | _ => rfl
  have hkept := verdict_ne_redirect_of_live hrelative hfile hindexable hlive hrank
  rw [← hquoted] at hunmoved
  simpa only [List.append_assoc] using repair_kept hspelled hconsidered hunmoved hkept x y

theorem repair_live_sample :
    hit? .load none ("load('res://Scripts/U.gd')".toList ++ ['\n']) =
      some ⟨.load .load "res://Scripts/U.gd".toList, "load('res://Scripts/U.gd')".toList, ['\n']⟩ ∧
    ((ofFiles ProjectFile.shadowed).repair "load('res://Scripts/U.gd')\n".toList).text =
      "load('res://Scripts/U.gd')\n".toList := by
  have hhit : hit? .load none ("load('res://Scripts/U.gd')".toList ++ ['\n']) =
      some ⟨.load .load "res://Scripts/U.gd".toList, "load('res://Scripts/U.gd')".toList, ['\n']⟩ := by
    decide +kernel
  have hunmoved : ∀ relocation ∈ Relocation.table, ¬ relocation.old <:+: "res://Scripts/U.gd".toList := by
    decide +kernel
  have hrank : ∀ other ∈ ProjectFile.shadowed, ¬ Resource.rank other.canonical < 0 := fun _ _ => Nat.not_lt_zero _
  have hempty : ((ofFiles ProjectFile.shadowed).repair []).text = [] := by decide +kernel
  have hline : ((ofFiles ProjectFile.shadowed).repair ['\n']).text = ['\n'] := by decide +kernel
  have hfile : ProjectFile.shadowed[0] ∈ ProjectFile.shadowed := List.mem_cons_self
  have hlive := repair_live (x := []) hfile (by decide) hhit (Or.inl rfl) rfl
    (fun relocation hmem _ _ => hunmoved relocation hmem) fun other hother _ _ => hrank other hother
  rw [hempty, hline] at hlive
  exact ⟨hhit, hlive⟩

/-- The ranks and the relocations do redirect references that are live. -/
theorem repair_redirects_live :
    (∀ file ∈ ProjectFile.shadowed, file.IsBelow (Utf8.encode "/p".toList) ∧ QuoteFree file.relative) ∧
    ((∃ file ∈ ProjectFile.shadowed, file.isIndexable = true ∧ file.canonical = "res://VoxelToolFiles/U.gd".toList) ∧
      hit? .load none "load('res://VoxelToolFiles/U.gd')".toList =
        some ⟨.load .load "res://VoxelToolFiles/U.gd".toList, "load('res://VoxelToolFiles/U.gd')".toList, []⟩ ∧
      ¬ "load('res://VoxelToolFiles/U.gd')".toList <:+:
        ((ofFiles ProjectFile.shadowed).repair "load('res://VoxelToolFiles/U.gd')".toList).text) ∧
    (∃ file ∈ ProjectFile.shadowed, file.isIndexable = true ∧ file.canonical = "res://blocks/mesher.tres".toList) ∧
      hit? .load none "load('res://blocks/mesher.tres')".toList =
        some ⟨.load .load "res://blocks/mesher.tres".toList, "load('res://blocks/mesher.tres')".toList, []⟩ ∧
      ¬ "load('res://blocks/mesher.tres')".toList <:+:
        ((ofFiles ProjectFile.shadowed).repair "load('res://blocks/mesher.tres')".toList).text := by
  decide +kernel

end Index
end Relink

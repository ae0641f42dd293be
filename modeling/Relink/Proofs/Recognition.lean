import Relink.Proofs.Surroundings

/-! # References read back

A repaired reference has the resource path of a file between its quotes, as it is. It is read back as a reference to
that file when the path has no quotes. A folder may have one in its name. Then the repaired text is not read as a
reference to the file, and when it is repaired again it may be taken for a reference to another file. -/

namespace Relink
open Reference Segment

namespace ProjectFile

/-- A project in `/p` with a folder that has a quote in its name. -/
def quoted : List ProjectFile :=
  [⟨Utf8.encode "/p/A/P.gd".toList, "A/P.gd".toList, "gd".toList⟩,
   ⟨Utf8.encode "/p/P.gd'/U.gd".toList, "P.gd'/U.gd".toList, "gd".toList⟩]

theorem isBelow_of_mem_quoted : ∀ file ∈ quoted, file.IsBelow (Utf8.encode "/p".toList) := by
  decide

end ProjectFile

namespace Reference
variable {reference : Reference} {source target : Text} {form : Form}

theorem form_redirection_ne_relativeLoad : (reference.redirection target).form ≠ .relativeLoad := by
  cases reference <;> exact nofun

/-- The path that is read at the front of a text has no quotes. -/
theorem quoteFree_path_of_hit? {text : Text} {hit : Hit} (h : hit? form none text = some hit)
    (hform : form ≠ .relativeLoad) : QuoteFree hit.reference.path := by
  obtain ⟨rfl, hspelled, -, -⟩ := hit?_eq_some_iff.mp h
  exact quoted_eq_path hform ▸ hspelled.writable.quoteFree

theorem hit?_of_spelled (h : Spelled reference source) :
    hit? reference.form none source = some ⟨reference, source, []⟩ :=
  hit?_eq_some_iff.mpr ⟨rfl, h, fun _ => rfl, (List.append_nil source).symm⟩

end Reference

namespace Index
variable {index : Index} {reference : Reference} {source target : Text} {form : Form}

/-! ### A reference alone -/

theorem text_repairForm_of_ne (index : Index) (form : Form) (hspelled : Spelled reference source)
    (hconsidered : considers reference = true) (hne : reference.form ≠ form) :
    (index.repairForm form source).text = source := by
  rw [repairForm_spelled index form hspelled hconsidered, redirectForm, if_neg hne]
  rfl

theorem text_repairForm_of_kept (form : Form) (hspelled : Spelled reference source)
    (hconsidered : considers reference = true) (hkept : ∀ target, index.verdict reference ≠ .redirect target) :
    (index.repairForm form source).text = source := by
  rw [repairForm_spelled index form hspelled hconsidered, redirectForm_of_kept hkept]
  rfl

theorem text_repairForm_of_redirect (hspelled : Spelled reference source)
    (hverdict : index.verdict reference = .redirect target) :
    (index.repairForm reference.form source).text = reference.redirected target := by
  have hconsidered := (verdict_eq_redirect_iff.mp hverdict).1
  rw [repairForm_spelled index _ hspelled hconsidered, redirectForm, if_pos rfl, source_redirect, replacement, hverdict]

/-- What a reference with a new target is written as stays, when the target has the name that led to it. -/
theorem text_repairForm_redirected (form : Form) (hverdict : index.verdict reference = .redirect target)
    (hname : Resource.basename target = reference.name) (hwritable : (extResource target).Writable) :
    (index.repairForm form (reference.redirected target)).text = reference.redirected target := by
  obtain ⟨hconsidered, hunique, -⟩ := verdict_eq_redirect_iff.mp hverdict
  refine text_repairForm_of_kept form (spelled_redirection hwritable) ?_ fun other hother => ?_
  · cases reference with
    | extResource path => exact (congrArg Resource.hasIndexableExtension hname).trans hconsidered
    | load => rfl
    | relativeLoad => rfl
  · obtain ⟨-, hunique', hleads⟩ := verdict_eq_redirect_iff.mp hother
    rw [Reference.name, path_redirection, hname, hunique] at hunique'
    cases hunique'
    rw [leadsTo_redirection] at hleads
    cases hleads

/-- The stages make a reference that is redirected into one to its target, and leave that alone. -/
theorem text_repair_of_redirect (hspelled : Spelled reference source)
    (hold : ∀ relocation ∈ Relocation.table, ¬ relocation.old <:+: source)
    (hverdict : index.verdict reference = .redirect target) (hname : Resource.basename target = reference.name)
    (hwritable : (extResource target).Writable) : (index.repair source).text = reference.redirected target := by
  have hconsidered := (verdict_eq_redirect_iff.mp hverdict).1
  have hmoved : (Relocation.applyAll Relocation.table source).1 = source :=
    (Relocation.applyAll_eq_self fun relocation hmem _ _ => hold relocation hmem).1
  have hother := fun form => text_repairForm_of_ne index form hspelled hconsidered
  have hredirect := text_repairForm_of_redirect hspelled hverdict
  have hstays := fun form => text_repairForm_redirected form hverdict hname hwritable
  rw [repair_eq_stages]
  simp only [textBefore, hmoved]
  -- The stages before that of its form keep the reference, and those after it keep what it has become.
  cases reference with
  | load =>
    have hload : (index.repairForm .load source).text = _ := hredirect
    rw [hload, hstays, hstays]
  | relativeLoad =>
    have hrelative : (index.repairForm .relativeLoad source).text = _ := hredirect
    rw [hother .load (show Form.relativeLoad ≠ .load by decide), hrelative, hstays]
  | extResource =>
    have hattribute : (index.repairForm .extResource source).text = _ := hredirect
    rw [hother .load (show Form.extResource ≠ .load by decide),
      hother .relativeLoad (show Form.extResource ≠ .relativeLoad by decide), hattribute]

/-- A reference that is redirected to a file is read back as a whole, as a reference to that file, when the resource
    path of the file has no quotes, and only then. -/
theorem repair_recognised_iff {root : Bytes} {files : List ProjectFile} (hfiles : ∀ file ∈ files, file.IsBelow root)
    (hhit : hit? form none source = some ⟨reference, source, []⟩)
    (hold : ∀ relocation ∈ Relocation.table, ¬ relocation.old <:+: source)
    (hindexable : form = .extResource → Resource.hasIndexableExtension reference.name = true)
    (hunique : (ofFiles files).resolve reference.name = .unique target) (hstale : reference.leadsTo target = false) :
    (∃ written, hit? (reference.redirection target).form none ((ofFiles files).repair source).text =
        some ⟨written, ((ofFiles files).repair source).text, []⟩ ∧ written.path = target) ↔ QuoteFree target := by
  constructor
  · rintro ⟨written, hwritten, rfl⟩
    exact quoteFree_path_of_hit? hwritten form_redirection_ne_relativeLoad
  · intro hquoteFree
    obtain ⟨hform, hspelled, -, -⟩ := hit?_eq_some_iff.mp hhit
    obtain ⟨file, hfile, -, hcanonical, hname⟩ := exists_of_resolve hunique
    have hconsidered : considers reference = true := by
      cases reference with
      | extResource => exact hindexable hform.symm
      | load => rfl
      | relativeLoad => rfl
    have hverdict : (ofFiles files).verdict reference = .redirect target :=
      verdict_eq_redirect_iff.mpr ⟨hconsidered, hunique, hstale⟩
    have hwritable : (extResource target).Writable := by
      rw [← hcanonical] at hquoteFree ⊢
      exact file.writable_canonical (hfiles file hfile) (quoteFree_append.mp hquoteFree).2
    rw [text_repair_of_redirect hspelled hold hverdict hname hwritable]
    exact ⟨_, hit?_of_spelled (spelled_redirection hwritable), path_redirection⟩

/-- The target has no quotes here, though another file of the project does. -/
theorem repair_recognised_iff_sample :
    (ofFiles ProjectFile.quoted).resolve "P.gd".toList = .unique "res://A/P.gd".toList ∧
    ∃ written, hit? .load none "load(\x22res://A/P.gd\x22)".toList =
      some ⟨written, "load(\x22res://A/P.gd\x22)".toList, []⟩ ∧ written.path = "res://A/P.gd".toList := by
  have hhit : hit? .relativeLoad none "load( './P.gd' )".toList =
      some ⟨.relativeLoad .load "P.gd".toList, "load( './P.gd' )".toList, []⟩ := by decide +kernel
  have hunique : (ofFiles ProjectFile.quoted).resolve "P.gd".toList = .unique "res://A/P.gd".toList := by
    decide +kernel
  have hrepair : ((ofFiles ProjectFile.quoted).repair "load( './P.gd' )".toList).text =
      "load(\x22res://A/P.gd\x22)".toList := by decide +kernel
  have hrecognised := (repair_recognised_iff ProjectFile.isBelow_of_mem_quoted hhit (by decide +kernel) nofun hunique
    (by decide +kernel)).mpr (by decide +kernel)
  rw [hrepair] at hrecognised
  exact ⟨hunique, hrecognised⟩

/-- A reference to a file in a folder with a quote in its name is not read back, and the next repair takes it for a
    reference to a file that the folder is called after. -/
theorem repair_unrecognised :
    (∀ file ∈ ProjectFile.quoted, file.IsBelow (Utf8.encode "/p".toList)) ∧
    hit? .extResource none "path='res://old/U.gd'".toList =
      some ⟨.extResource "res://old/U.gd".toList, "path='res://old/U.gd'".toList, []⟩ ∧
    (∀ relocation ∈ Relocation.table, ¬ relocation.old <:+: "path='res://old/U.gd'".toList) ∧
    Resource.hasIndexableExtension "U.gd".toList = true ∧
    (ofFiles ProjectFile.quoted).resolve "U.gd".toList = .unique "res://P.gd'/U.gd".toList ∧
    ((ofFiles ProjectFile.quoted).repair "path='res://old/U.gd'".toList).text =
      "path=\x22res://P.gd'/U.gd\x22".toList ∧
    hit? .extResource none "path=\x22res://P.gd'/U.gd\x22".toList =
      some ⟨.extResource "res://P.gd".toList, "path=\x22res://P.gd'".toList, "/U.gd\x22".toList⟩ ∧
    (ofFiles ProjectFile.quoted).repair "path=\x22res://P.gd'/U.gd\x22".toList =
      ⟨"path=\x22res://A/P.gd\x22/U.gd\x22".toList,
        [⟨.extResource, "res://P.gd".toList, .replaced "res://A/P.gd".toList⟩]⟩ :=
  ⟨ProjectFile.isBelow_of_mem_quoted, by decide +kernel⟩

end Index
end Relink

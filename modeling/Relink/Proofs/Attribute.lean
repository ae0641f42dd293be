import Relink.Proofs.Surroundings
import Relink.Proofs.Unclosed

/-! # Repair of an attribute

An attribute whose name leads to one file is repaired and recorded whatever stands around it, unless the text before
it has an unclosed attribute. That one takes the opening quote, and the attribute is copied without a record. Neither
the relocations nor the repair of calls decide between the two. -/

namespace Relink
open Reference Segment

namespace Index
variable {index : Index} {path source target x : Text} {form' : Form}

/-! ### One stage -/

/-- The stage of attributes redirects an attribute that stands after closed ones. -/
theorem repairForm_attribute (index : Index) (hspelled : Spelled (.extResource path) source)
    (hconsidered : considers (.extResource path) = true) (x y : Text) :
    index.repairForm .extResource (x ++ (source ++ y)) =
      ⟨(index.repairForm .extResource x).text ++
          ((if Unclosed x then source else index.replacement (.found (.extResource path) source)) ++
            (index.repairForm .extResource y).text),
        (index.repairForm .extResource x).changes ++
          ((if Unclosed x then [] else (index.change? (.found (.extResource path) source)).toList) ++
            (index.repairForm .extResource y).changes)⟩ := by
  by_cases h : Unclosed x
  · obtain ⟨segments, reference, a, b, c, hignored, hsource, hx, hcut⟩ :=
      exists_cut_append_attribute hspelled hconsidered h y
    have hkeep : index.verdict reference = .keep := verdict_ignored hignored
    have hfound : index.change? (.found reference (a ++ b)) = none := by
      rw [change?_found, hkeep]
      rfl
    have hcopied : index.replacement (.found reference (a ++ b)) = a ++ b := by simp only [replacement, hkeep]
    simp only [repairForm, hcut, hx, if_pos h, List.flatMap_append, List.flatMap_cons, List.filterMap_append,
      List.filterMap_cons, flatMap_replacement_plains, filterMap_change?_plains, hfound, hcopied]
    simp only [hsource, List.append_assoc, List.nil_append]
  · simp only [repairForm, cut_append_attribute hspelled h, if_neg h, List.flatMap_append, List.flatMap_cons,
      List.filterMap_append, List.filterMap_cons]
    cases index.change? (.found (.extResource path) source) <;> rfl

/-- The stages of calls copy an attribute. -/
theorem repairForm_beside_attribute (index : Index) (form : Form) (hspelled : Spelled (.extResource path) source)
    (hconsidered : considers (.extResource path) = true) (hform : form ≠ .extResource) (x y : Text) :
    index.repairForm form (x ++ (source ++ y)) =
      ⟨(index.repairForm form x).text ++ (source ++ (index.repairForm form y).text),
        (index.repairForm form x).changes ++ (index.repairForm form y).changes⟩ := by
  obtain ⟨middle, hmiddle, hrepair⟩ := repairForm_join index form hspelled hconsidered x y
  have hcopied : middle.map (index.redirectForm form) = middle ∧ middle.filterMap (index.changeForm? form) = [] := by
    rcases hmiddle with rfl | ⟨-, rfl⟩
    · have hother : (Reference.extResource path).form ≠ form := hform.symm
      rw [List.map_singleton, List.filterMap_cons, changeForm?_of_ne hother, redirectForm, if_neg hother]
      exact ⟨rfl, rfl⟩
    · exact ⟨map_redirectForm_plains form source, filterMap_changeForm?_plains form source⟩
  rw [hrepair, hcopied.1, hcopied.2, hmiddle.text, List.nil_append]

/-- What an earlier stage writes makes no other records in the stages after it. -/
theorem changes_repairForm (hsound : index.Sound) (form : Form) (hne : form ≠ form') (hload : form ≠ .load)
    (text : Text) :
    (index.repairForm form (index.repairForm form' text).text).changes = (index.repairForm form text).changes := by
  obtain ⟨segments, hlayout, rfl⟩ := Layout.exists_layout text false
  have hrepaired := hlayout.map (respells_redirectForm hsound hlayout form')
  rw [repairForm_layout hlayout, repairForm_layout hrepaired, repairForm_layout hlayout, List.filterMap_map]
  exact List.filterMap_congr fun segment _ => changeForm?_redirectForm hne hload segment

/-- The repair of calls closes no attribute and leaves none unclosed: the attribute put after the text is recorded
    before and after or not at all. -/
theorem unclosed_repairForm (hsound : index.Sound) (form : Form) (hspelled : Spelled (.extResource path) source)
    (hverdict : index.verdict (.extResource path) = .redirect target) (hform : form ≠ .extResource) (x : Text) :
    Unclosed (index.repairForm form x).text ↔ Unclosed x := by
  have hconsidered := (verdict_eq_redirect_iff.mp hverdict).1
  -- The stage of attributes makes the same records before and after, so their number tells whether it reaches the
  -- attribute.
  have hrecord : (index.change? (.found (.extResource path) source)).toList.length = 1 := by
    rw [change?_found, hverdict]
    rfl
  have hkept := fun text => changes_repairForm hsound .extResource hform.symm (by decide) text
  have hchanges := hkept (x ++ (source ++ []))
  rw [repairForm_beside_attribute index form hspelled hconsidered hform,
    repairForm_attribute index hspelled hconsidered, repairForm_attribute index hspelled hconsidered] at hchanges
  have hcount := congrArg List.length hchanges
  simp only [hkept, List.length_append] at hcount
  constructor
  · intro h
    by_contra hx
    rw [if_pos h, if_neg hx, hrecord] at hcount
    simp at hcount
  · intro hx
    by_contra h
    rw [if_neg h, if_pos hx, hrecord] at hcount
    simp at hcount

/-! ### All stages -/

section Stages
variable (hspelled : Spelled (.extResource path) source)
include hspelled

theorem textBefore_attribute (index : Index) (hconsidered : considers (.extResource path) = true)
    (hold : ∀ relocation ∈ Relocation.table, ¬ relocation.old <:+: path) (x y : Text) (form : Form) :
    index.textBefore (x ++ (source ++ y)) form = index.textBefore x form ++ (source ++ index.textBefore y form) := by
  have htable : ∀ relocation ∈ Relocation.table, relocation ∈ Relocation.table := fun _ h => h
  have hmoved := Relocation.applyAll_around htable hspelled x y
  rw [Relocation.applyAll_spelled_eq_self htable hspelled fun relocation hmem _ _ => hold relocation hmem] at hmoved
  have hload := repairForm_beside_attribute index .load hspelled hconsidered (by decide)
  have hrelative := repairForm_beside_attribute index .relativeLoad hspelled hconsidered (by decide)
  cases form with
  | load => exact hmoved
  | relativeLoad => simp only [textBefore, hmoved, hload]
  | extResource => simp only [textBefore, hmoved, hload, hrelative]

theorem unclosed_textBefore (hsound : index.Sound) (hverdict : index.verdict (.extResource path) = .redirect target)
    (x : Text) (form : Form) : Unclosed (index.textBefore x form) ↔ Unclosed x := by
  have hmoved := Relocation.unclosed_applyAll (fun _ h => h) x
  have hload := unclosed_repairForm hsound .load hspelled hverdict (by decide)
  have hrelative := unclosed_repairForm hsound .relativeLoad hspelled hverdict (by decide)
  cases form with
  | load => exact hmoved
  | relativeLoad => rw [textBefore, hload, hmoved]
  | extResource => rw [textBefore, hrelative, hload, hmoved]

end Stages

/-- An attribute whose name leads to one file is made to lead there, and recorded, whatever stands around it, except
    that nothing becomes of it after a text with an unclosed attribute. -/
theorem repair_attribute {root : Bytes} {files : List ProjectFile}
    (hfiles : ∀ file ∈ files, file.IsBelow root ∧ QuoteFree file.relative) {source path target : Text}
    (hhit : hit? .extResource none source = some ⟨.extResource path, source, []⟩)
    (hold : ∀ relocation ∈ Relocation.table, ¬ relocation.old <:+: source)
    (hindexable : Resource.hasIndexableExtension (Resource.basename path) = true)
    (hunique : (ofFiles files).resolve (Resource.basename path) = .unique target) (hne : target ≠ path) (x y : Text) :
    ((ofFiles files).repair (x ++ source ++ y)).text =
      ((ofFiles files).repair x).text ++
        (if Unclosed x then source else attributeMark ++ ['\x22'] ++ target ++ ['\x22']) ++
        ((ofFiles files).repair y).text ∧
    ∀ kind, kind ≠ .hardcoded →
      ((ofFiles files).repair (x ++ source ++ y)).changes.filter (·.kind = kind) =
        ((ofFiles files).repair x).changes.filter (·.kind = kind) ++
          (if kind = .extResource ∧ ¬ Unclosed x then [⟨.extResource, path, .replaced target⟩] else []) ++
          ((ofFiles files).repair y).changes.filter (·.kind = kind) := by
  have hsound := sound_ofFiles hfiles
  generalize ofFiles files = index at hsound hunique ⊢
  have hspelled : Spelled (.extResource path) source := (hit?_eq_some_iff.mp hhit).2.1
  have hverdict : index.verdict (.extResource path) = .redirect target := by
    refine verdict_eq_redirect_iff.mpr ⟨hindexable, hunique, ?_⟩
    exact decide_eq_false hne.symm
  have hquoted : path <:+: source := by
    obtain ⟨lead, opening, tail, -, -, -, rfl⟩ := hspelled.exists_lead
    exact ⟨lead ++ [opening], tail, by simp [quoted]⟩
  have htext := textBefore_attribute hspelled index hindexable
    (fun relocation hmem hpath => hold relocation hmem (hpath.trans hquoted)) x y
  have hclosed := unclosed_textBefore hspelled hsound hverdict x .extResource
  have hwritten : index.replacement (.found (.extResource path) source) =
      attributeMark ++ ['\x22'] ++ target ++ ['\x22'] := by
    rw [replacement, hverdict]
    rfl
  have hrecord : (index.change? (.found (.extResource path) source)).toList =
      [⟨.extResource, path, .replaced target⟩] := by
    rw [change?_found, hverdict]
    rfl
  have hstage := repairForm_attribute index hspelled hindexable (index.textBefore x .extResource)
    (index.textBefore y .extResource)
  simp only [hclosed, hwritten, hrecord] at hstage
  refine ⟨?_, fun kind hkind => ?_⟩
  · rw [List.append_assoc, List.append_assoc, repair_eq_stages, repair_eq_stages, repair_eq_stages, htext, hstage]
  · obtain ⟨form, rfl⟩ := exists_kindOf hkind
    rw [List.append_assoc, List.append_assoc, filter_kindOf_repair, filter_kindOf_repair, filter_kindOf_repair, htext]
    by_cases hform : form = .extResource
    · subst hform
      have hkindOf : (kindOf .extResource = .extResource ∧ ¬ Unclosed x) ↔ ¬ Unclosed x := and_iff_right rfl
      simp only [hstage, hkindOf, ite_not]
    · have hkindOf : ¬ (kindOf form = .extResource ∧ ¬ Unclosed x) := by
        rintro ⟨hsame, -⟩
        cases form with
        | extResource => exact hform rfl
        | load => cases hsame
        | relativeLoad => cases hsame
      rw [repairForm_beside_attribute index form hspelled hindexable hform, if_neg hkindOf, List.nil_append]

theorem repair_attribute_sample :
    (∀ file ∈ ProjectFile.sample, file.IsBelow (Utf8.encode "/p".toList) ∧ QuoteFree file.relative) ∧
    ((ofFiles ProjectFile.sample).repair "a=' path='res://P.gd'\n".toList).text =
      "a=' path=\x22res://A/P.gd\x22\n".toList ∧
    ((ofFiles ProjectFile.sample).repair "path='res:// path='res://P.gd'\n".toList).text =
      "path='res:// path='res://P.gd'\n".toList := by
  have hhit : hit? .extResource none "path='res://P.gd'".toList =
      some ⟨.extResource "res://P.gd".toList, "path='res://P.gd'".toList, []⟩ := by decide +kernel
  have hunique : (ofFiles ProjectFile.sample).resolve "P.gd".toList = .unique "res://A/P.gd".toList := by
    decide +kernel
  have hrepair := fun x => (repair_attribute ProjectFile.isBelow_of_mem_sample hhit (by decide +kernel)
    (by decide +kernel) hunique (by decide) x "\n".toList).1
  have hclosed : ¬ Unclosed "a=' ".toList := by decide +kernel
  have hunclosed : Unclosed "path='res:// ".toList := by decide +kernel
  have hsame : ∀ t ∈ ["a=' ".toList, "path='res:// ".toList, "\n".toList],
      ((ofFiles ProjectFile.sample).repair t).text = t := by decide +kernel
  refine ⟨ProjectFile.isBelow_of_mem_sample, ?_, ?_⟩
  · have htext := hrepair "a=' ".toList
    rw [if_neg hclosed, hsame "a=' ".toList (by decide), hsame "\n".toList (by decide)] at htext
    exact htext
  · have htext := hrepair "path='res:// ".toList
    rw [if_pos hunclosed, hsame "path='res:// ".toList (by decide), hsame "\n".toList (by decide)] at htext
    exact htext

/-- After a damaged attribute the next one is neither repaired nor recorded. -/
theorem repair_attribute_unclosed :
    hit? .extResource none "path=\x22res://old/P.gd\x22".toList =
      some ⟨.extResource "res://old/P.gd".toList, "path=\x22res://old/P.gd\x22".toList, []⟩ ∧
    (ofFiles ProjectFile.sample).resolve "P.gd".toList = .unique "res://A/P.gd".toList ∧
    ¬ "path=\x22res://A/P.gd\x22".toList <:+: ((ofFiles ProjectFile.sample).repair
      "[a path=\x22res://a]\n[b path=\x22res://old/P.gd\x22]".toList).text ∧
    ((ofFiles ProjectFile.sample).repair
      "[a path=\x22res://a]\n[b path=\x22res://old/P.gd\x22]".toList).changes = [] := by
  decide +kernel

end Index
end Relink

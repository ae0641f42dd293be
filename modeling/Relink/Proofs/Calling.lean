import Relink.Proofs.Identifier
import Relink.Proofs.Substitution
import Relink.Proofs.Surroundings

/-! # The functions whose calls are redirected

A stage that repairs calls reads them wherever a word ends in `load` before a parenthesis. The word before the call
only tells whether it is recognised as one of `preload`, which it is when that is the whole word. So the calls of
any function whose name ends in `load` are redirected, whatever that function does with a path. -/

namespace Relink
open Reference Segment

namespace Index
variable {index : Index} {form : Form} {text : Text} {edit : Edit}

/-! ### The edits of a text -/

theorem mem_editsFrom_iff {start : Nat} {segments : List Segment} : edit ∈ index.editsFrom start segments ↔
    ∃ before after, segments = before ++ .found edit.reference edit.source :: after ∧
      edit.start = start + (Segment.text before).length ∧ index.verdict edit.reference = .redirect edit.target := by
  refine ⟨of_mem_editsFrom, ?_⟩
  rintro ⟨before, after, rfl, hstart, hverdict⟩
  rw [editsFrom_append, editsFrom]
  have hedit : index.edit? (start + (Segment.text before).length) (.found edit.reference edit.source) = some edit :=
    edit?_eq_some_iff.mpr ⟨hstart, rfl, hverdict⟩
  rw [hedit]
  exact List.mem_append_right _ (List.mem_append_left _ (Option.mem_toList.mpr rfl))

theorem text_repairForm (index : Index) (form : Form) (text : Text) :
    (index.repairForm form text).text = Edit.substitute (index.edits form text) text := by
  have hsegments : Segment.text ((cut form text).map index.redirect) = (cut form text).flatMap index.replacement := by
    rw [Segment.text, List.flatMap_map]
    exact List.flatMap_congr fun segment _ => source_redirect segment
  have hsubstitute : Edit.substituteFrom 0 (index.edits form text) (Segment.text (cut form text)) = _ :=
    substituteFrom_editsFrom 0 (cut form text)
  rw [Segment.text, flatMap_source_cut, hsegments] at hsubstitute
  exact hsubstitute.symm

theorem edits_layout {segments : List Segment} (h : Layout false segments) (form : Form) :
    index.edits form (Segment.text segments) = (index.editsFrom 0 segments).filter (·.reference.form = form) := by
  have hidle : false = true → form ≠ .extResource := fun hbusy => absurd hbusy Bool.false_ne_true
  rw [edits, ← editsFrom_considered, h.cut_layout.1 form hidle, editsFrom_ofForm]

/-- A call is redirected where it is recognised in the text. -/
theorem mem_edits_iff (hform : form ≠ .extResource) : edit ∈ index.edits form text ↔
    edit.reference.form = form ∧ Spelled edit.reference edit.source ∧
      index.verdict edit.reference = .redirect edit.target ∧
      ∃ front rest, text = front ++ (edit.source ++ rest) ∧ edit.start = front.length ∧
        edit.reference.keyword.Begins front := by
  obtain ⟨segments, hlayout, rfl⟩ := Layout.exists_layout text false
  rw [edits_layout hlayout, List.mem_filter, decide_eq_true_iff, mem_editsFrom_iff]
  constructor
  · rintro ⟨⟨before, after, rfl, hstart, hverdict⟩, rfl⟩
    have hspelled := (hlayout.spelled_of_mem (List.mem_append_right _ List.mem_cons_self)).1
    refine ⟨rfl, hspelled, hverdict, Segment.text before, Segment.text after, ?_, ?_, hlayout.begins_of_mem rfl⟩
    · rw [text_append, text_cons, Segment.source]
    · rw [hstart, Nat.zero_add]
  · rintro ⟨rfl, hspelled, hverdict, front, rest, htext, hstart, hbegins⟩
    obtain ⟨before, after, rfl, rfl⟩ := hlayout.exists_found hform hspelled hbegins htext
    exact ⟨⟨before, after, rfl, by rw [hstart, Nat.zero_add], hverdict⟩, rfl⟩

/-! ### The words before the edits -/

theorem mem_edits_iff_identifier (hform : form ≠ .extResource) : edit ∈ index.edits form text ↔
    edit.reference.form = form ∧ Spelled edit.reference edit.source ∧
      index.verdict edit.reference = .redirect edit.target ∧ edit.source <+: text.drop edit.start ∧
      ∃ callee, edit.reference.keyword = .call callee ∧
        (callee = .preload ↔ identifier (text.take edit.start) callee = Callee.preload.name) := by
  rw [mem_edits_iff hform]
  refine and_congr_right fun hreference => and_congr_right fun hspelled => and_congr_right fun _ => ?_
  obtain ⟨callee, hcall⟩ := exists_callee (hreference ▸ hform)
  constructor
  · rintro ⟨front, rest, rfl, hstart, hbegins⟩
    rw [hcall, begins_iff] at hbegins
    rw [hstart, List.drop_left, List.take_left]
    exact ⟨List.prefix_append _ _, callee, hcall, hbegins⟩
  · rintro ⟨⟨rest, hrest⟩, callee', hcall', hbegins⟩
    refine ⟨text.take edit.start, rest, ?_, ?_, ?_⟩
    · rw [hrest, List.take_append_drop]
    · -- The call is not empty, so it starts before the text ends.
      obtain ⟨c, source, hsource, -⟩ := hspelled.head
      have hlength := congrArg List.length hrest
      rw [hsource, List.length_append, List.length_cons, List.length_drop] at hlength
      rw [List.length_take]
      omega
    · rw [hcall', begins_iff]
      exact hbegins

/-- A call of any function whose name ends in that of `callee` is redirected, and its name is kept. -/
theorem exists_mem_edits {reference : Reference} {source front rest target : Text} {callee : Callee}
    (hcall : reference.keyword = .call callee) (hspelled : Spelled reference source)
    (hverdict : index.verdict reference = .redirect target) :
    ∃ edit ∈ index.edits reference.form (front ++ (source ++ rest)), ∃ callee',
      edit.reference.keyword = .call callee' ∧ edit.target = target ∧
      edit.stop = front.length + source.length ∧
      (front ++ (source ++ rest)).take edit.start ++ callee'.name = front ++ callee.name := by
  obtain ⟨front', callee', reference', source', hsource, hname, hcall', hform, hquoted, hspelled', hbegins, -⟩ :=
    hspelled.exists_recognised hcall front
  have hnotPath : reference.form ≠ .extResource := by
    intro hpath
    rw [form_eq_extResource_iff, hcall] at hpath
    cases hpath
  have hverdict' : index.verdict reference' = .redirect target := by
    rw [← hverdict]
    exact verdict_congr hform (path_eq_of_quoted hform hquoted)
  have htext : front ++ (source ++ rest) = front' ++ (source' ++ rest) := by
    rw [← List.append_assoc, ← hsource, List.append_assoc]
  have hmem : (⟨front'.length, reference', source', target⟩ : Edit) ∈
      index.edits reference.form (front ++ (source ++ rest)) :=
    (mem_edits_iff hnotPath).mpr ⟨hform, hspelled', hverdict', front', rest, htext, rfl, hcall' ▸ hbegins⟩
  refine ⟨_, hmem, callee', hcall', rfl, ?_, ?_⟩
  · have hlength := congrArg List.length hsource
    rwa [List.length_append, List.length_append] at hlength
  · rw [htext, List.take_left, hname]

/-- A stage that repairs calls makes edits in the text that it reads, each where a call is recognised. What it edits is
    a call of `load` or `preload` when no word stands before it. But every call of a function whose name ends in `load`
    is edited, whatever the rest of the name is. -/
theorem repairForm_calls (index : Index) (hform : form ≠ .extResource) (text : Text) :
    (index.repairForm form (index.textBefore text form)).text =
      Edit.substitute (index.edits form (index.textBefore text form)) (index.textBefore text form) ∧
    (∀ edit, edit ∈ index.edits form (index.textBefore text form) ↔
      edit.reference.form = form ∧ Spelled edit.reference edit.source ∧
      index.verdict edit.reference = .redirect edit.target ∧
      edit.source <+: (index.textBefore text form).drop edit.start ∧
      ∃ callee, edit.reference.keyword = .call callee ∧
        (callee = .preload ↔
          identifier ((index.textBefore text form).take edit.start) callee = Callee.preload.name)) ∧
    (∀ edit ∈ index.edits form (index.textBefore text form), ∀ callee, edit.reference.keyword = .call callee →
      ((∃ function : Callee,
          identifier ((index.textBefore text form).take edit.start) callee = function.name) ↔
        ((index.textBefore text form).take edit.start).getLast?.any Text.isWord = false)) ∧
    ∀ front rest reference source target callee, index.textBefore text form = front ++ (source ++ rest) →
      reference.form = form → reference.keyword = .call callee → Spelled reference source →
      index.verdict reference = .redirect target →
      ∃ edit ∈ index.edits form (index.textBefore text form), ∃ callee', edit.reference.keyword = .call callee' ∧
        edit.target = target ∧ edit.stop = front.length + source.length ∧
        (index.textBefore text form).take edit.start ++ callee'.name = front ++ callee.name := by
  refine ⟨text_repairForm index form _, fun edit => mem_edits_iff_identifier hform, fun edit hmem callee hcall => ?_,
    fun front rest reference source target callee htext hreference hcall hspelled hverdict => ?_⟩
  · obtain ⟨-, -, -, -, callee', hcall', hbegins⟩ := (mem_edits_iff_identifier hform).mp hmem
    cases hcall.symm.trans hcall'
    exact exists_name_iff (begins_iff.mpr hbegins)
  · subst hreference
    rw [htext]
    exact exists_mem_edits hcall hspelled hverdict

/-- After an underscore the call is not read as one of `preload`. -/
theorem repairForm_calls_sample : Form.relativeLoad ≠ .extResource ∧
    ((ofFiles ProjectFile.sample).repairForm .relativeLoad "_preload('./P.gd')".toList).text =
      Edit.substitute [⟨4, .relativeLoad .load "P.gd".toList, "load('./P.gd')".toList, "res://A/P.gd".toList⟩]
        "_preload('./P.gd')".toList ∧
    identifier "_pre".toList .load ≠ Callee.preload.name ∧
    ¬ ∃ function : Callee, identifier "_pre".toList .load = function.name := by
  have hread : (ofFiles ProjectFile.sample).textBefore "_preload('./P.gd')".toList .relativeLoad =
      "_preload('./P.gd')".toList := by decide +kernel
  have hedits : (ofFiles ProjectFile.sample).edits .relativeLoad "_preload('./P.gd')".toList =
      [⟨4, .relativeLoad .load "P.gd".toList, "load('./P.gd')".toList, "res://A/P.gd".toList⟩] := by decide +kernel
  obtain ⟨htext, hmem, hname, -⟩ := repairForm_calls (ofFiles ProjectFile.sample)
    (show Form.relativeLoad ≠ .extResource by decide) "_preload('./P.gd')".toList
  rw [hread, hedits] at htext hmem hname
  obtain ⟨-, -, -, -, callee, hcall, hpreload⟩ := (hmem _).mp (List.mem_singleton_self _)
  cases hcall
  refine ⟨by decide, htext, fun he => ?_, fun hfunction => ?_⟩
  · cases hpreload.mpr he
  · have hword := (hname _ (List.mem_singleton_self _) .load rfl).mp hfunction
    exact absurd hword (by decide +kernel)

/-- A call of another function is redirected when the name of that function ends in `load`. -/
theorem repairForm_upload :
    (ofFiles ProjectFile.sample).textBefore "upload('res://old/P.gd')".toList .load =
      "upload('res://old/P.gd')".toList ∧
    (ofFiles ProjectFile.sample).edits .load "upload('res://old/P.gd')".toList =
      [⟨2, .load .load "res://old/P.gd".toList, "load('res://old/P.gd')".toList, "res://A/P.gd".toList⟩] ∧
    identifier ("upload('res://old/P.gd')".toList.take 2) .load = "upload".toList ∧
    ("upload('res://old/P.gd')".toList.take 2).getLast? = some 'p' ∧ Text.isWord 'p' = true ∧
    (ofFiles ProjectFile.sample).repair "upload('res://old/P.gd')".toList =
      ⟨"upload(\x22res://A/P.gd\x22)".toList,
        [⟨.load, "res://old/P.gd".toList, .replaced "res://A/P.gd".toList⟩]⟩ := by
  decide +kernel

end Index
end Relink

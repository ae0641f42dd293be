import Relink.Proofs.Layout.Joining
import Relink.Proofs.Relocating
import Relink.Proofs.Settled
import Relink.Run

/-! # Repair around a reference

A call is repaired the same way whatever stands around it: nothing that a stage reads reaches over an edge of
the call, and what a stage makes of the call is a call again. So the repair of a text with a call in it is put
together from the repairs of what precedes the call, of the call and of what follows it. -/

namespace Relink
open Reference Segment

namespace Index
variable {index : Index} {reference : Reference} {source : Text}

/-! ### One stage -/

theorem repairForm_join (index : Index) (form : Form) (hspelled : Spelled reference source)
    (hconsidered : considers reference = true) (x y : Text) :
    ∃ middle, Layout.Middle reference source middle ∧ index.repairForm form (x ++ (source ++ y)) =
      ⟨(index.repairForm form x).text ++
          (Segment.text (middle.map (index.redirectForm form)) ++ (index.repairForm form y).text),
        (index.repairForm form x).changes ++
          (middle.filterMap (index.changeForm? form) ++ (index.repairForm form y).changes)⟩ := by
  obtain ⟨before, hbefore, rfl⟩ := Layout.exists_layout x false
  obtain ⟨after, hafter, rfl⟩ := Layout.exists_layout y false
  obtain ⟨joined, middle, hjoined, hmiddle, halike⟩ := hbefore.exists_join hspelled hconsidered hafter
  have htext : Segment.text joined = Segment.text before ++ (source ++ Segment.text after) := by
    rw [halike.text, text_append, text_append, hmiddle.text]
  refine ⟨middle, hmiddle, ?_⟩
  rw [← htext, repairForm_layout hjoined, repairForm_layout hbefore, repairForm_layout hafter, halike.redirected,
    halike.changes]
  simp only [List.map_append, text_append, List.filterMap_append]

theorem considers_of_ne (h : reference.form ≠ .extResource) : considers reference = true := by
  cases reference with
  | extResource => exact absurd rfl h
  | _ => rfl

theorem repairForm_spelled (index : Index) (form : Form) (hspelled : Spelled reference source)
    (hconsidered : considers reference = true) : index.repairForm form source =
      ⟨(index.redirectForm form (.found reference source)).source,
        (index.changeForm? form (.found reference source)).toList⟩ := by
  have hbegins : reference.keyword.Begins [] := by
    cases hkeyword : reference.keyword with
    | path => trivial
    | call callee =>
      cases callee with
      | load => exact fun before he => by cases before <;> cases he
      | preload => exact rfl
  have hlayout : Layout false (plains [] ++ .found reference source :: plains []) :=
    .found quoteFree_nil hbegins hspelled hconsidered nofun (.last quoteFree_nil)
  have htext := text_found [] reference source (plains [])
  rw [text_plains, List.append_nil, List.nil_append] at htext
  have hrepair : index.repairForm form _ = _ := repairForm_layout hlayout form
  rw [htext] at hrepair
  rw [hrepair, plains_nil, List.nil_append, List.map_singleton, text_cons, List.filterMap_cons, List.filterMap_nil,
    Segment.text, List.flatMap_nil, List.append_nil]
  cases index.changeForm? form (.found reference source) <;> rfl

/-- A stage of the repair takes a call as it does alone. -/
theorem repairForm_call (index : Index) (form : Form) (hspelled : Spelled reference source)
    (hcall : reference.form ≠ .extResource) (x y : Text) : index.repairForm form (x ++ (source ++ y)) =
      ⟨(index.repairForm form x).text ++ ((index.repairForm form source).text ++ (index.repairForm form y).text),
        (index.repairForm form x).changes ++
          ((index.repairForm form source).changes ++ (index.repairForm form y).changes)⟩ := by
  have hconsidered := considers_of_ne hcall
  obtain ⟨middle, hmiddle, hrepair⟩ := repairForm_join index form hspelled hconsidered x y
  rcases hmiddle with rfl | ⟨hform, -⟩
  · rw [hrepair, repairForm_spelled index form hspelled hconsidered, List.map_singleton, text_cons,
      List.filterMap_cons, List.filterMap_nil, Segment.text, List.flatMap_nil, List.append_nil]
    cases index.changeForm? form (.found reference source) <;> rfl
  · exact absurd hform hcall

/-- What a stage makes of a call is a call. -/
theorem spelled_repairForm (hsound : index.Sound) (form : Form) (hspelled : Spelled reference source)
    (hcall : reference.form ≠ .extResource) : ∃ reference' : Reference, reference'.form ≠ .extResource ∧
      Spelled reference' (index.repairForm form source).text := by
  have hconsidered := considers_of_ne hcall
  rw [repairForm_spelled index form hspelled hconsidered]
  by_cases hkept : ∀ target, index.verdict reference ≠ .redirect target
  · rw [redirectForm_of_kept hkept]
    exact ⟨reference, hcall, hspelled⟩
  · simp only [not_forall, not_not] at hkept
    obtain ⟨target, hverdict⟩ := hkept
    have hunique := (verdict_eq_redirect_iff.mp hverdict).2.1
    by_cases hform : reference.form = form
    · refine ⟨reference.redirection target, ?_, ?_⟩
      · rwa [Ne, form_eq_extResource_iff, keyword_redirection, ← form_eq_extResource_iff]
      · simp only [redirectForm, redirect, hform, hverdict, ↓reduceIte]
        exact spelled_redirection (hsound.writable _ _ hunique)
    · refine ⟨reference, hcall, ?_⟩
      simp only [redirectForm, hform, ↓reduceIte]
      exact hspelled

/-! ### All stages -/

/-- The text that the stage of a form reads. -/
def textBefore (index : Index) (text : Text) : Form → Text
  | .load => (Relocation.applyAll Relocation.table text).1
  | .relativeLoad => (index.repairForm .load (Relocation.applyAll Relocation.table text).1).text
  | .extResource =>
    (index.repairForm .relativeLoad (index.repairForm .load (Relocation.applyAll Relocation.table text).1).text).text

theorem repair_eq_stages (index : Index) (text : Text) : index.repair text =
    ⟨(index.repairForm .extResource (index.textBefore text .extResource)).text,
      (Relocation.applyAll Relocation.table text).2 ++ (index.repairForm .load (index.textBefore text .load)).changes ++
        (index.repairForm .relativeLoad (index.textBefore text .relativeLoad)).changes ++
        (index.repairForm .extResource (index.textBefore text .extResource)).changes⟩ := rfl

/-- How the records of a form name it. -/
def kindOf : Form → Change.Kind
  | .load => .load
  | .relativeLoad => .relativeLoad
  | .extResource => .extResource

theorem kind_of_mem_repairForm {form : Form} {text : Text} {change : Change}
    (h : change ∈ (index.repairForm form text).changes) : change.kind = kindOf form := by
  obtain ⟨segments, hlayout, rfl⟩ := Layout.exists_layout text false
  rw [repairForm_layout hlayout] at h
  obtain ⟨segment, -, hchange⟩ := List.mem_filterMap.mp h
  cases segment with
  | plain c => cases hchange
  | found reference source =>
    rw [changeForm?_found] at hchange
    split at hchange
    · rename_i hform
      obtain ⟨outcome, -, rfl⟩ := Option.map_eq_some_iff.mp hchange
      subst hform
      cases reference <;> rfl
    · cases hchange

/-- The records of one kind are those of its stage. -/
theorem filter_kindOf_repair (index : Index) (text : Text) (form : Form) :
    (index.repair text).changes.filter (·.kind = kindOf form) =
      (index.repairForm form (index.textBefore text form)).changes := by
  have hnone : (Relocation.applyAll Relocation.table text).2.filter (·.kind = kindOf form) = [] :=
    List.filter_eq_nil_iff.mpr fun change hmem => by
      rw [(Relocation.of_mem_applyAll hmem).1]
      cases form <;> decide
  have hone : ∀ form', (index.repairForm form' (index.textBefore text form')).changes.filter (·.kind = kindOf form) =
      if form' = form then (index.repairForm form' (index.textBefore text form')).changes else [] := by
    intro form'
    split
    · rename_i hform
      exact List.filter_eq_self.mpr fun change hmem => by simp [kind_of_mem_repairForm hmem, hform]
    · rename_i hform
      refine List.filter_eq_nil_iff.mpr fun change hmem => ?_
      rw [kind_of_mem_repairForm hmem]
      cases form <;> cases form' <;> first | exact absurd rfl hform | decide
  rw [repair_eq_stages]
  simp only [List.filter_append, hnone, hone]
  cases form <;> simp

/-- Each stage reads a text that is put together in the same way as the text that is repaired. -/
theorem textBefore_call (hsound : index.Sound) (hspelled : Spelled reference source)
    (hcall : reference.form ≠ .extResource) (x y : Text) (form : Form) :
    index.textBefore (x ++ (source ++ y)) form =
      index.textBefore x form ++ (index.textBefore source form ++ index.textBefore y form) ∧
    ∃ reference' : Reference, reference'.form ≠ .extResource ∧ Spelled reference' (index.textBefore source form) := by
  have htable : ∀ relocation ∈ Relocation.table, relocation ∈ Relocation.table := fun _ h => h
  have hmoved := Relocation.applyAll_around htable hspelled x y
  obtain ⟨first, hform, hfirst⟩ := Relocation.spelled_applyAll htable hspelled
  have hcallFirst : first.form ≠ .extResource := hform ▸ hcall
  obtain ⟨second, hcallSecond, hsecond⟩ := spelled_repairForm hsound .load hfirst hcallFirst
  obtain ⟨third, hcallThird, hthird⟩ := spelled_repairForm hsound .relativeLoad hsecond hcallSecond
  cases form with
  | load => exact ⟨hmoved, first, hcallFirst, hfirst⟩
  | relativeLoad =>
    refine ⟨?_, second, hcallSecond, hsecond⟩
    simp only [textBefore, hmoved, repairForm_call index .load hfirst hcallFirst]
  | extResource =>
    refine ⟨?_, third, hcallThird, hthird⟩
    simp only [textBefore, hmoved, repairForm_call index .load hfirst hcallFirst,
      repairForm_call index .relativeLoad hsecond hcallSecond]

/-- The stage of a form takes a call as it does alone, in the text that it reads. -/
theorem repairForm_textBefore_call (hsound : index.Sound) (hspelled : Spelled reference source)
    (hcall : reference.form ≠ .extResource) (x y : Text) (form : Form) :
    index.repairForm form (index.textBefore (x ++ (source ++ y)) form) =
      ⟨(index.repairForm form (index.textBefore x form)).text ++
          ((index.repairForm form (index.textBefore source form)).text ++
            (index.repairForm form (index.textBefore y form)).text),
        (index.repairForm form (index.textBefore x form)).changes ++
          ((index.repairForm form (index.textBefore source form)).changes ++
            (index.repairForm form (index.textBefore y form)).changes)⟩ := by
  obtain ⟨htext, reference', hcall', hspelled'⟩ := textBefore_call hsound hspelled hcall x y form
  rw [htext, repairForm_call index form hspelled' hcall']

theorem exists_kindOf {kind : Change.Kind} (h : kind ≠ .hardcoded) : ∃ form, kind = kindOf form := by
  cases kind with
  | hardcoded => exact absurd rfl h
  | load => exact ⟨.load, rfl⟩
  | relativeLoad => exact ⟨.relativeLoad, rfl⟩
  | extResource => exact ⟨.extResource, rfl⟩

/-- A call is repaired and recorded the same way whatever stands around it. It is also read whatever bytes stand
    around it in a file. -/
theorem repair_call {root : Bytes} {files : List ProjectFile}
    (hfiles : ∀ file ∈ files, file.IsBelow root ∧ QuoteFree file.relative) {form : Form}
    (hform : form ≠ .extResource) {call : Text} {hit : Hit} (hhit : hit? form none call = some hit)
    (hwhole : hit.rest = []) :
    (∀ x y,
      ((ofFiles files).repair (x ++ call ++ y)).text =
        ((ofFiles files).repair x).text ++ ((ofFiles files).repair call).text ++ ((ofFiles files).repair y).text ∧
      ∀ kind, kind ≠ .hardcoded →
        ((ofFiles files).repair (x ++ call ++ y)).changes.filter (·.kind = kind) =
          ((ofFiles files).repair x).changes.filter (·.kind = kind) ++
            ((ofFiles files).repair call).changes.filter (·.kind = kind) ++
            ((ofFiles files).repair y).changes.filter (·.kind = kind)) ∧
    ∀ front back : Bytes,
      Utf8.decodeLossy (front ++ Utf8.encode call ++ back) = Utf8.decodeLossy front ++ call ++ Utf8.decodeLossy back ∧
      ∀ (tree : Node) (file : ProjectFile), tree.read [] file.path = .ok (front ++ Utf8.encode call ++ back) →
        Run.readText tree file = .ok (Utf8.decodeLossy front ++ call ++ Utf8.decodeLossy back) := by
  have hsound := sound_ofFiles hfiles
  obtain ⟨hreference, hspelled, -, hcall⟩ := hit?_eq_some_iff.mp hhit
  rw [hwhole, List.append_nil] at hcall
  rw [← hcall] at hspelled
  rw [← hreference] at hform
  refine ⟨fun x y => ⟨?_, fun kind hkind => ?_⟩, fun front back => ?_⟩
  · simp only [repair_eq_stages, List.append_assoc]
    rw [repairForm_textBefore_call hsound hspelled hform x y .extResource]
  · obtain ⟨form', rfl⟩ := exists_kindOf hkind
    simp only [filter_kindOf_repair, List.append_assoc]
    rw [repairForm_textBefore_call hsound hspelled hform x y form']
  · obtain ⟨c, rest, hhead, hc⟩ := hspelled.head
    have hascii : c.toNat < 0x80 := by
      rcases hc with rfl | rfl <;> decide
    have hdecode : Utf8.decodeLossy (front ++ Utf8.encode call ++ back) =
        Utf8.decodeLossy front ++ call ++ Utf8.decodeLossy back := by
      rw [hhead, List.append_assoc, List.append_assoc]
      exact Utf8.decodeLossy_around hascii rest front back
    refine ⟨hdecode, fun tree file hread => ?_⟩
    rw [Run.readText, hread, ← hdecode]

theorem repair_call_sample :
    (∀ file ∈ ProjectFile.sample, file.IsBelow (Utf8.encode "/p".toList) ∧ QuoteFree file.relative) ∧
    ((ofFiles ProjectFile.sample).repair "path='res://P.gd load('./P.gd') \x22".toList).text =
      "path='res://P.gd load(\x22res://A/P.gd\x22) \x22".toList ∧
    Utf8.decodeLossy ([0xff] ++ Utf8.encode "load('./P.gd')".toList ++ [0xe2, 0x28]) =
      "\ufffdload('./P.gd')\ufffd(".toList := by
  have hhit : hit? .relativeLoad none "load('./P.gd')".toList =
      some ⟨.relativeLoad .load "P.gd".toList, "load('./P.gd')".toList, []⟩ := by decide +kernel
  obtain ⟨htext, hbytes⟩ := repair_call ProjectFile.isBelow_of_mem_sample (by decide) hhit rfl
  have hfront : ((ofFiles ProjectFile.sample).repair "path='res://P.gd ".toList).text =
      "path='res://P.gd ".toList := by decide +kernel
  have hcall : ((ofFiles ProjectFile.sample).repair "load('./P.gd')".toList).text =
      "load(\x22res://A/P.gd\x22)".toList := by decide +kernel
  have hback : ((ofFiles ProjectFile.sample).repair " \x22".toList).text = " \x22".toList := by decide +kernel
  have hfrontBytes : Utf8.decodeLossy [0xff] = "\ufffd".toList := by decide +kernel
  have hbackBytes : Utf8.decodeLossy [0xe2, 0x28] = "\ufffd(".toList := by decide +kernel
  refine ⟨ProjectFile.isBelow_of_mem_sample, ?_, ?_⟩
  · exact ((htext "path='res://P.gd ".toList " \x22".toList).1).trans (by rw [hfront, hcall, hback]; rfl)
  · exact ((hbytes [0xff] [0xe2, 0x28]).1).trans (by rw [hfrontBytes, hbackBytes]; rfl)

end Index
end Relink

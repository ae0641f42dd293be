import Relink.Proofs.ChangeLog

/-! # Repairs in succession

A repair leaves every reference in its place: how it is written and where it leads may change, but neither
the function that is called nor the name. So where all names of a text lead to one file each, the references
come to lead there, and it makes no difference to them whether the text was repaired for another project
before. -/

namespace Relink
open Reference Segment

namespace Segment

/-- The references of a form that a text is cut at. -/
def references (form : Form) (text : Text) : List Reference := (cut form text).filterMap reference?

theorem filterMap_reference?_plains (a : Text) : (plains a).filterMap reference? = [] := by
  rw [List.filterMap_eq_nil_iff]
  intro segment h
  obtain ⟨c, -, rfl⟩ := List.mem_map.mp h
  rfl

theorem mem_filterMap_reference?_iff {segments : List Segment} {reference : Reference} :
    reference ∈ segments.filterMap reference? ↔ ∃ source, .found reference source ∈ segments := by
  rw [List.mem_filterMap]
  constructor
  · rintro ⟨segment, hmem, h⟩
    cases segment with
    | plain c => cases h
    | found reference' source =>
      cases h
      exact ⟨source, hmem⟩
  · rintro ⟨source, hmem⟩
    exact ⟨_, hmem, rfl⟩

theorem form_of_mem_cutFrom {form : Form} {skip : Nat} {previous : Option Char} {text : Text} {reference : Reference}
    {source : Text} (h : .found reference source ∈ cutFrom form skip previous text) : reference.form = form := by
  induction text generalizing skip previous with
  | nil => cases h
  | cons c text ih =>
    cases skip with
    | succ skip => exact ih h
    | zero =>
      rw [cutFrom] at h
      split at h
      · rename_i hit hhit
        rcases List.mem_cons.mp h with he | h
        · cases he
          exact (hit?_eq_some_iff.mp hhit).1
        · exact ih h
      · rcases List.mem_cons.mp h with he | h
        · cases he
        · exact ih h

theorem form_of_mem_references {form : Form} {text : Text} {reference : Reference}
    (h : reference ∈ references form text) : reference.form = form := by
  obtain ⟨source, hmem⟩ := mem_filterMap_reference?_iff.mp h
  exact form_of_mem_cutFrom hmem

/-- Every call is looked up, whatever its name. -/
theorem filter_references_load (text : Text) :
    (references .load text).filter Index.considers = references .load text := by
  rw [List.filter_eq_self]
  intro reference hmem
  exact Index.considers_of_ne (by rw [form_of_mem_references hmem]; decide)

/-- Segments may be split into others as long as each keeps the references that `p` holds of. -/
theorem filterMap_reference?_flatMap {f : Segment → List Segment} {p : Reference → Bool}
    (hf : ∀ segment, (f segment).filterMap reference? = segment.reference?.toList.filter p)
    (segments : List Segment) :
    (segments.flatMap f).filterMap reference? = (segments.filterMap reference?).filter p := by
  induction segments with
  | nil => rfl
  | cons segment segments ih =>
    rw [List.flatMap_cons, List.filterMap_append, hf, ih, ← List.filter_append]
    cases segment <;> rfl

theorem filterMap_reference?_considered (segment : Segment) :
    (considered segment).filterMap reference? = segment.reference?.toList.filter Index.considers := by
  cases segment with
  | plain c => rfl
  | found reference source =>
    cases h : Index.considers reference with
    | true => simp [considered_found h, reference?, h]
    | false => simp [considered_ignored h, filterMap_reference?_plains, reference?, h]

theorem filterMap_reference?_ofForm (form : Form) (segment : Segment) :
    (ofForm form segment).filterMap reference? = segment.reference?.toList.filter (·.form = form) := by
  cases segment with
  | plain c => rfl
  | found reference source =>
    by_cases h : reference.form = form
    · simp [ofForm_of_eq h, reference?, h]
    · simp [ofForm_of_ne h, filterMap_reference?_plains, reference?, h]

end Segment

/-- The references of a text whose names are looked up are those of its layout. -/
theorem Layout.filter_references {segments : List Segment} (h : Layout false segments) (form : Form) :
    (references form (Segment.text segments)).filter Index.considers =
      (segments.filterMap reference?).filter (·.form = form) := by
  rw [references, ← filterMap_reference?_flatMap filterMap_reference?_considered, h.cut_layout.1 form nofun,
    filterMap_reference?_flatMap (filterMap_reference?_ofForm form)]

theorem Layout.mem_references {segments : List Segment} (h : Layout false segments) {reference : Reference}
    {source : Text} (hmem : .found reference source ∈ segments) :
    reference ∈ references reference.form (Segment.text segments) := by
  have hfilter : reference ∈ (references reference.form (Segment.text segments)).filter Index.considers := by
    rw [h.filter_references, List.mem_filter, mem_filterMap_reference?_iff]
    exact ⟨⟨source, hmem⟩, decide_eq_true rfl⟩
  exact (List.mem_filter.mp hfilter).1

/-- A call of a form that no reference of a layout has cannot be read anywhere in its text. -/
theorem Layout.hit?_eq_none {segments : List Segment} (h : Layout false segments) {form : Form}
    (hform : form ≠ .extResource) (hnone : ∀ reference ∈ segments.filterMap reference?, reference.form ≠ form)
    {before rest : Text} (htext : Segment.text segments = before ++ rest) :
    hit? form before.getLast? rest = none := by
  refine Option.eq_none_iff_forall_ne_some.mpr fun hit hhit => ?_
  obtain ⟨reference, source, hmem, he, -⟩ := h.exists_of_hit? hform ⟨before, htext.symm⟩ hhit
  exact hnone reference (mem_filterMap_reference?_iff.mpr ⟨source, hmem⟩) he

namespace Relocation

/-- Whether no old path that has a new one occurs in a text. -/
def Avoids (text : Text) : Prop :=
  ∀ relocation ∈ table, ∀ path, relocation.destination = .moved path → ¬ relocation.old <:+: text

theorem Avoids.of_infix {a text : Text} (h : Avoids text) (ha : a <:+: text) : Avoids a :=
  fun relocation hmem path hdestination hold => h relocation hmem path hdestination (hold.trans ha)

theorem Avoids.applyAll_eq {text : Text} (h : Avoids text) : (applyAll table text).1 = text := (applyAll_eq_self h).1

end Relocation

open Relocation (Avoids)

namespace Reference
variable {reference : Reference} {target : Text}

theorem redirection_of_leadsTo (h : reference.leadsTo target = true) : reference.redirection target = reference := by
  cases reference with
  | load callee path => rw [redirection, show path = target from of_decide_eq_true h]
  | relativeLoad => cases h
  | extResource path => rw [redirection, show path = target from of_decide_eq_true h]

theorem redirection_redirection (reference : Reference) (first target : Text) :
    (reference.redirection first).redirection target = reference.redirection target := by
  cases reference <;> rfl

theorem form_redirection_ne (reference : Reference) (target : Text) :
    (reference.redirection target).form ≠ .relativeLoad := by
  cases reference <;> simp [redirection, form]

end Reference

/-- A project in `/q` with a script that `ProjectFile.sample` has in another folder. -/
def ProjectFile.former : List ProjectFile := [⟨Utf8.encode "/q/Old/P.gd".toList, "Old/P.gd".toList, "gd".toList⟩]

namespace Index
variable {index other : Index} {reference : Reference} {source target : Text} {segments : List Segment}

/-! ### No old path comes up -/

/-- Redirecting the references of a text brings up no old path, unless it stands in the path of a file. The
    induction carries along the text `a` that was passed since the last redirected reference. -/
theorem applyAll_map_redirect (hsound : index.Sound)
    (hspared : ∀ name target, index.resolve name = .unique target → Avoids target)
    (hspelled : ∀ reference source, .found reference source ∈ segments → Spelled reference source)
    {a : Text} (h : Avoids (a ++ Segment.text segments)) :
    (Relocation.applyAll Relocation.table (a ++ Segment.text (segments.map index.redirect))).1 =
      a ++ Segment.text (segments.map index.redirect) := by
  induction segments generalizing a with
  | nil => exact h.applyAll_eq
  | cons segment segments ih =>
    have ih {a : Text} := ih (a := a) fun reference source hmem =>
      hspelled reference source (List.mem_cons_of_mem _ hmem)
    rw [text_cons] at h
    rw [List.map_cons, text_cons]
    rcases redirect_eq_self_or index segment with hself | ⟨reference, source, target, rfl, hverdict⟩
    · rw [hself, ← List.append_assoc]
      apply ih
      rwa [List.append_assoc]
    · have hunique := (verdict_eq_redirect_iff.mp hverdict).2.1
      have hwritten : Spelled (reference.redirection target) (reference.redirected target) :=
        spelled_redirection (hsound.writable _ _ hunique)
      have hsource : (Relocation.applyAll Relocation.table (reference.redirected target)).1 =
          reference.redirected target := by
        refine Relocation.applyAll_spelled_eq_self (fun _ hmem => hmem) hwritten ?_
        rw [quoted_redirection]
        exact hspared _ _ hunique
      have hfront : Avoids a := h.of_infix (List.prefix_append _ _).isInfix
      have hrest : Avoids ([] ++ Segment.text segments) :=
        h.of_infix ((List.suffix_append _ _).trans (List.suffix_append _ _)).isInfix
      rw [source_redirect_of_redirect hverdict, Relocation.applyAll_around (fun _ hmem => hmem) hwritten,
        hfront.applyAll_eq, hsource]
      exact congrArg (fun rest => a ++ (reference.redirected target ++ rest)) (ih hrest)

/-! ### Two projects -/

theorem reference?_redirect_of_unique (hconsidered : considers reference = true)
    (hunique : index.resolve reference.name = .unique target) :
    (index.redirect (.found reference source)).reference? = some (reference.redirection target) := by
  cases hleads : reference.leadsTo target with
  | true =>
    have hkept : ∀ other, index.verdict reference ≠ .redirect other := by
      intro other hverdict
      obtain ⟨-, hother, hnot⟩ := verdict_eq_redirect_iff.mp hverdict
      cases hunique.symm.trans hother
      rw [hleads] at hnot
      cases hnot
    rw [redirect_of_kept hkept, redirection_of_leadsTo hleads]
    rfl
  | false =>
    simp only [redirect, verdict_eq_redirect_iff.mpr ⟨hconsidered, hunique, hleads⟩]
    rfl

theorem name_redirection (hsound : index.Sound) (hverdict : index.verdict reference = .redirect target) :
    (reference.redirection target).name = reference.name := by
  rw [name, path_redirection]
  exact hsound.name _ _ (verdict_eq_redirect_iff.mp hverdict).2.1

/-- A reference whose name leads to one file of the second project comes to lead there by either way. -/
theorem reference?_redirect_redirect (hsound : index.Sound) (hconsidered : considers reference = true)
    (hunique : other.resolve reference.name = .unique target) :
    (other.redirect (index.redirect (.found reference source))).reference? = some (reference.redirection target) := by
  rcases redirect_eq_self_or index (.found reference source) with hself | ⟨_, _, first, he, hverdict⟩
  · rw [hself, reference?_redirect_of_unique hconsidered hunique]
  · cases he
    have hredirected : index.redirect (.found reference source) =
        .found (reference.redirection first) (reference.redirected first) := by
      simp only [redirect, hverdict]
    rw [← name_redirection hsound hverdict] at hunique
    rw [hredirected, reference?_redirect_of_unique (verdict_redirection hsound hverdict).1 hunique,
      redirection_redirection]

theorem filterMap_reference?_redirect_redirect (hsound : index.Sound)
    (hunique : ∀ reference source, .found reference source ∈ segments → considers reference = true ∧
      ∃ target, other.resolve reference.name = .unique target) :
    ((segments.map index.redirect).map other.redirect).filterMap reference? =
      (segments.map other.redirect).filterMap reference? := by
  rw [List.map_map, List.filterMap_map, List.filterMap_map]
  apply List.filterMap_congr
  intro segment hmem
  cases segment with
  | plain c => rfl
  | found reference source =>
    obtain ⟨hconsidered, target, htarget⟩ := hunique reference source hmem
    exact (reference?_redirect_redirect hsound hconsidered htarget).trans
      (reference?_redirect_of_unique hconsidered htarget).symm

theorem form_ne_relativeLoad (hunique : ∀ reference source, .found reference source ∈ segments →
      considers reference = true ∧ ∃ target, index.resolve reference.name = .unique target)
    (hmem : reference ∈ (segments.map index.redirect).filterMap reference?) : reference.form ≠ .relativeLoad := by
  obtain ⟨source, hmem⟩ := mem_filterMap_reference?_iff.mp hmem
  obtain ⟨segment, hsegment, he⟩ := List.mem_map.mp hmem
  cases segment with
  | plain c => cases he
  | found first source' =>
    obtain ⟨hconsidered, target, htarget⟩ := hunique first source' hsegment
    have hreference : (index.redirect (.found first source')).reference? = some (first.redirection target) :=
      reference?_redirect_of_unique hconsidered htarget
    rw [he] at hreference
    cases hreference
    exact form_redirection_ne first target

/-- A repair for one project before the repair for another makes no difference to the references, when all
    names of the text lead to one file each of the other project: the same calls and attributes lead to the
    same files, and no call with a relative path is left. -/
theorem repair_succession {root root' : Bytes} {files files' : List ProjectFile}
    (hfiles : ∀ file ∈ files, file.IsBelow root ∧ QuoteFree file.relative)
    (hfiles' : ∀ file ∈ files', file.IsBelow root' ∧ QuoteFree file.relative)
    (hspared : ∀ file ∈ files, Avoids file.canonical) {text : Text} (htext : Avoids text)
    (hunique : ∀ form, ∀ reference ∈ references form text, considers reference = true →
      ∃ target, (ofFiles files').resolve reference.name = .unique target) :
    let direct := ((ofFiles files').repair text).text
    let indirect := ((ofFiles files').repair ((ofFiles files).repair text).text).text
    references .load indirect = references .load direct ∧
    (references .extResource indirect).filter considers = (references .extResource direct).filter considers ∧
    ∀ result, result = direct ∨ result = indirect → ∀ before rest, result = before ++ rest →
      hit? .relativeLoad before.getLast? rest = none := by
  have hsound := sound_ofFiles hfiles
  have hsound' := sound_ofFiles hfiles'
  have htargets : ∀ name target, (ofFiles files).resolve name = .unique target → Avoids target := by
    intro name target h
    obtain ⟨file, hfile, -, rfl, -⟩ := exists_of_resolve h
    exact hspared file hfile
  generalize ofFiles files = index at hsound htargets ⊢
  generalize ofFiles files' = other at hsound' hunique ⊢
  obtain ⟨segments, hlayout, rfl⟩ := Layout.exists_layout text false
  have hfound : ∀ reference source, .found reference source ∈ segments → considers reference = true ∧
      ∃ target, other.resolve reference.name = .unique target := by
    intro reference source hmem
    have hconsidered := (hlayout.spelled_of_mem hmem).2
    exact ⟨hconsidered, hunique _ reference (hlayout.mem_references hmem) hconsidered⟩
  -- Neither repair is given a text with an old path, so both redirect the references of a layout.
  obtain ⟨hfirst, hlayout'⟩ := repair_layout hsound hlayout htext.applyAll_eq.symm
  obtain ⟨hdirect, hdirectLayout⟩ := repair_layout hsound' hlayout htext.applyAll_eq.symm
  have hmoved : (Relocation.applyAll Relocation.table (Segment.text (segments.map index.redirect))).1 = _ :=
    applyAll_map_redirect hsound htargets (fun reference source hmem => (hlayout.spelled_of_mem hmem).1) (a := []) htext
  obtain ⟨hindirect, hindirectLayout⟩ := repair_layout hsound' hlayout' hmoved.symm
  have hsame := filterMap_reference?_redirect_redirect hsound hfound
  have hforms : ∀ form, (references form (Segment.text ((segments.map index.redirect).map other.redirect))).filter
      considers = (references form (Segment.text (segments.map other.redirect))).filter considers := by
    intro form
    rw [hindirectLayout.filter_references, hdirectLayout.filter_references, hsame]
  have hnone : ∀ reference ∈ (segments.map other.redirect).filterMap reference?, reference.form ≠ .relativeLoad :=
    fun reference hmem => form_ne_relativeLoad hfound hmem
  simp only [hfirst, hdirect, hindirect]
  refine ⟨?_, hforms .extResource, ?_⟩
  · rw [← filter_references_load, hforms, filter_references_load]
  · rintro result (rfl | rfl) before rest he
    · exact hdirectLayout.hit?_eq_none (by decide) hnone he
    · exact hindirectLayout.hit?_eq_none (by decide) (hsame ▸ hnone) he

theorem repair_succession_sample :
    (∀ file ∈ ProjectFile.former, file.IsBelow (Utf8.encode "/q".toList) ∧ QuoteFree file.relative) ∧
    ((ofFiles ProjectFile.former).repair "load('./P.gd') path='res://P.gd'".toList).text =
      "load(\x22res://Old/P.gd\x22) path=\x22res://Old/P.gd\x22".toList ∧
    references .load ((ofFiles ProjectFile.sample).repair
        ((ofFiles ProjectFile.former).repair "load('./P.gd') path='res://P.gd'".toList).text).text =
      [.load .load "res://A/P.gd".toList] := by
  have hformer : ∀ file ∈ ProjectFile.former, file.IsBelow (Utf8.encode "/q".toList) ∧ QuoteFree file.relative := by
    decide
  have hspared : ∀ file ∈ ProjectFile.former, Avoids file.canonical := by
    intro file hfile relocation hmem path _
    have h : ∀ file ∈ ProjectFile.former, ∀ relocation ∈ Relocation.table, ¬ relocation.old <:+: file.canonical := by
      decide +kernel
    exact h file hfile relocation hmem
  have htext : Avoids "load('./P.gd') path='res://P.gd'".toList := by
    intro relocation hmem path _
    have h : ∀ relocation ∈ Relocation.table, ¬ relocation.old <:+: "load('./P.gd') path='res://P.gd'".toList := by
      decide +kernel
    exact h relocation hmem
  have hname : ∀ form, ∀ reference ∈ references form "load('./P.gd') path='res://P.gd'".toList,
      reference.name = "P.gd".toList := by
    intro form
    cases form <;> decide +kernel
  have htarget : (ofFiles ProjectFile.sample).resolve "P.gd".toList = .unique "res://A/P.gd".toList := by
    decide +kernel
  obtain ⟨hload, -, -⟩ := repair_succession hformer ProjectFile.isBelow_of_mem_sample hspared htext
    fun form reference hmem _ => ⟨_, (hname form reference hmem).symm ▸ htarget⟩
  refine ⟨hformer, by decide +kernel, hload.trans ?_⟩
  decide +kernel

end Index
end Relink

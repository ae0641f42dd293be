import Relink.Proofs.Settled

/-! # The repair as one substitution

The stages of the repair do not interfere: what they write is what comes of the text after the relocations
when the references that are redirected are replaced all at once, each in its place. All else is copied. So
the records of each form are those that its stage alone would make. -/

namespace Relink
open Reference Segment

/-- The replacement of a reference that a text has `start` characters after its beginning. -/
structure Edit where
  start : Nat
  reference : Reference
  /-- The reference as the text has it. -/
  source : Text
  target : Text
  deriving DecidableEq, Repr

namespace Edit

/-- Where the text goes on after the reference. -/
def stop (edit : Edit) : Nat := edit.start + edit.source.length

/-- What is written in the place of the reference. -/
def written (edit : Edit) : Text := edit.reference.redirected edit.target

/-- The record of the replacement. -/
def change (edit : Edit) : Change := ⟨edit.reference.kind, edit.reference.path, .replaced edit.target⟩

/-- Makes edits in what a text has from `position` on; what lies between them is copied. -/
def substituteFrom (position : Nat) : List Edit → Text → Text
  | [], text => text
  | edit :: edits, text =>
    text.take (edit.start - position) ++ edit.written ++ substituteFrom edit.stop edits (text.drop (edit.stop - position))

/-- Makes edits in a text. -/
def substitute (edits : List Edit) (text : Text) : Text := substituteFrom 0 edits text

/-- What comes before the first edit is copied. -/
theorem substituteFrom_append {position : Nat} {a : Text} {edits : List Edit}
    (h : ∀ edit ∈ edits, position + a.length ≤ edit.start) (text : Text) :
    substituteFrom position edits (a ++ text) = a ++ substituteFrom (position + a.length) edits text := by
  cases edits with
  | nil => rfl
  | cons edit edits =>
    have hstart := h edit List.mem_cons_self
    have hstop : position + a.length ≤ edit.stop := Nat.le_trans hstart (Nat.le_add_right _ _)
    rw [substituteFrom, substituteFrom, List.take_append, List.drop_append, List.take_of_length_le (by omega),
      List.drop_of_length_le (by omega), Nat.sub_sub, Nat.sub_sub]
    simp only [List.append_assoc, List.nil_append]

end Edit

namespace Index
variable {index : Index}

/-- The edit made of a segment that starts at a place of a text. -/
def edit? (index : Index) (start : Nat) : Segment → Option Edit
  | .plain _ => none
  | .found reference source =>
    match index.verdict reference with
    | .redirect target => some ⟨start, reference, source, target⟩
    | _ => none

/-- The edits made of segments that start at a place of a text. -/
def editsFrom (index : Index) (start : Nat) : List Segment → List Edit
  | [] => []
  | segment :: segments => (index.edit? start segment).toList ++ index.editsFrom (start + segment.source.length) segments

/-- The edits made of the references of a form. -/
def edits (index : Index) (form : Form) (text : Text) : List Edit := index.editsFrom 0 (cut form text)

theorem edit?_eq_some_iff {start : Nat} {segment : Segment} {edit : Edit} :
    index.edit? start segment = some edit ↔ edit.start = start ∧ segment = .found edit.reference edit.source ∧
      index.verdict edit.reference = .redirect edit.target := by
  obtain ⟨start', reference', source', target'⟩ := edit
  cases segment with
  | plain c => simp [edit?]
  | found reference source =>
    rw [edit?]
    split
    · rename_i target hverdict
      simp only [Option.some.injEq, Edit.mk.injEq, Segment.found.injEq]
      constructor
      · rintro ⟨rfl, rfl, rfl, rfl⟩
        exact ⟨rfl, ⟨rfl, rfl⟩, hverdict⟩
      · rintro ⟨rfl, ⟨rfl, rfl⟩, hverdict'⟩
        exact ⟨rfl, rfl, rfl, Verdict.redirect.inj (hverdict.symm.trans hverdict')⟩
    · rename_i hnot
      simp only [reduceCtorEq, Segment.found.injEq, false_iff, not_and]
      rintro - ⟨rfl, rfl⟩ hverdict
      exact hnot _ hverdict

theorem editsFrom_append (start : Nat) (a b : List Segment) : index.editsFrom start (a ++ b) =
    index.editsFrom start a ++ index.editsFrom (start + (Segment.text a).length) b := by
  induction a generalizing start with
  | nil => rfl
  | cons segment a ih =>
    rw [List.cons_append, editsFrom, editsFrom, ih, text_cons, List.length_append, List.append_assoc, Nat.add_assoc]

theorem editsFrom_plains (start : Nat) (a : Text) : index.editsFrom start (plains a) = [] := by
  induction a generalizing start with
  | nil => rfl
  | cons c a ih =>
    rw [plains_cons, editsFrom, ih]
    rfl

/-- Segments may be split into others as long as each makes the edits that are kept of it. -/
theorem editsFrom_flatMap {f : Segment → List Segment} {p : Edit → Bool}
    (hsource : ∀ segment, Segment.text (f segment) = segment.source)
    (hedits : ∀ start segment, index.editsFrom start (f segment) = (index.edit? start segment).toList.filter p)
    (start : Nat) (segments : List Segment) :
    index.editsFrom start (segments.flatMap f) = (index.editsFrom start segments).filter p := by
  induction segments generalizing start with
  | nil => rfl
  | cons segment segments ih =>
    rw [List.flatMap_cons, editsFrom_append, hsource, hedits, ih, editsFrom, List.filter_append]

theorem editsFrom_singleton (start : Nat) (segment : Segment) :
    index.editsFrom start [segment] = (index.edit? start segment).toList := by
  rw [editsFrom, editsFrom, List.append_nil]

theorem editsFrom_considered (start : Nat) (segments : List Segment) :
    index.editsFrom start (segments.flatMap considered) = index.editsFrom start segments := by
  refine (editsFrom_flatMap (p := fun _ => true) text_considered (fun start segment => ?_) start segments).trans
    (List.filter_true _)
  rw [List.filter_true]
  cases segment with
  | plain c => rfl
  | found reference source =>
    cases hconsidered : considers reference with
    | true => rw [considered_found hconsidered, editsFrom_singleton]
    | false =>
      rw [considered_ignored hconsidered, editsFrom_plains, edit?, verdict_ignored hconsidered]
      rfl

theorem editsFrom_ofForm (form : Form) (start : Nat) (segments : List Segment) :
    index.editsFrom start (segments.flatMap (ofForm form)) =
      (index.editsFrom start segments).filter (·.reference.form = form) := by
  refine editsFrom_flatMap (text_ofForm form) (fun start segment => ?_) start segments
  cases segment with
  | plain c => rfl
  | found reference source =>
    have hreference : ∀ edit ∈ (index.edit? start (.found reference source)).toList, edit.reference = reference := by
      intro edit hmem
      obtain ⟨-, hsegment, -⟩ := edit?_eq_some_iff.mp (Option.mem_toList.mp hmem)
      exact (Segment.found.inj hsegment).1.symm
    by_cases hform : reference.form = form
    · rw [ofForm_of_eq hform, editsFrom_singleton, List.filter_eq_self.mpr]
      intro edit hmem
      rw [hreference edit hmem]
      exact decide_eq_true hform
    · rw [ofForm_of_ne hform, editsFrom_plains, List.filter_eq_nil_iff.mpr]
      intro edit hmem
      rw [hreference edit hmem]
      simpa using hform

/-! ### The edits of segments -/

theorem of_mem_editsFrom {start : Nat} {segments : List Segment} {edit : Edit}
    (h : edit ∈ index.editsFrom start segments) :
    ∃ before after, segments = before ++ .found edit.reference edit.source :: after ∧
      edit.start = start + (Segment.text before).length ∧ index.verdict edit.reference = .redirect edit.target := by
  induction segments generalizing start with
  | nil => cases h
  | cons segment segments ih =>
    rcases List.mem_append.mp h with h | h
    · obtain ⟨hstart, rfl, hverdict⟩ := edit?_eq_some_iff.mp (Option.mem_toList.mp h)
      exact ⟨[], segments, rfl, hstart, hverdict⟩
    · obtain ⟨before, after, rfl, hstart, hverdict⟩ := ih h
      refine ⟨segment :: before, after, rfl, ?_, hverdict⟩
      rw [hstart, text_cons, List.length_append, Nat.add_assoc]

theorem pairwise_editsFrom (start : Nat) (segments : List Segment) :
    (index.editsFrom start segments).Pairwise fun a b => a.stop ≤ b.start := by
  induction segments generalizing start with
  | nil => exact .nil
  | cons segment segments ih =>
    rw [editsFrom]
    cases hedit : index.edit? start segment with
    | none => exact ih _
    | some edit =>
      obtain ⟨rfl, rfl, -⟩ := edit?_eq_some_iff.mp hedit
      refine List.pairwise_cons.mpr ⟨fun later hlater => ?_, ih _⟩
      obtain ⟨before, after, -, hstart, -⟩ := of_mem_editsFrom hlater
      rw [hstart]
      exact Nat.le_add_right _ _

theorem redirect_of_edit?_eq_none {start : Nat} {segment : Segment} (h : index.edit? start segment = none) :
    index.redirect segment = segment := by
  cases segment with
  | plain c => rfl
  | found reference source =>
    cases hverdict : index.verdict reference with
    | redirect target => simp [edit?, hverdict] at h
    | keep => simp only [redirect, hverdict]
    | flag candidates => simp only [redirect, hverdict]

theorem source_redirect_of_edit? {start : Nat} {segment : Segment} {edit : Edit}
    (h : index.edit? start segment = some edit) : (index.redirect segment).source = edit.written := by
  obtain ⟨-, rfl, hverdict⟩ := edit?_eq_some_iff.mp h
  simp only [redirect, hverdict]
  rfl

/-- Making the edits of segments redirects their references. -/
theorem substituteFrom_editsFrom (start : Nat) (segments : List Segment) :
    Edit.substituteFrom start (index.editsFrom start segments) (Segment.text segments) =
      Segment.text (segments.map index.redirect) := by
  induction segments generalizing start with
  | nil => rfl
  | cons segment segments ih =>
    rw [editsFrom, List.map_cons, text_cons, text_cons, ← ih (start + segment.source.length)]
    cases hedit : index.edit? start segment with
    | none =>
      rw [redirect_of_edit?_eq_none hedit]
      refine Edit.substituteFrom_append (fun edit hmem => ?_) _
      obtain ⟨before, after, -, hstart, -⟩ := of_mem_editsFrom hmem
      rw [hstart]
      exact Nat.le_add_right _ _
    | some edit =>
      rw [source_redirect_of_edit? hedit]
      obtain ⟨rfl, rfl, -⟩ := edit?_eq_some_iff.mp hedit
      have hstop : edit.stop - edit.start = edit.source.length := by rw [Edit.stop, Nat.add_sub_cancel_left]
      rw [Option.toList_some, List.singleton_append, Edit.substituteFrom, Nat.sub_self, hstop, List.take_zero,
        List.nil_append, Segment.source, List.drop_left]
      rfl

/-- The records of replaced references are those of the edits. -/
theorem changes_editsFrom (start : Nat) (segments : List Segment) :
    (index.editsFrom start segments).map Edit.change = (segments.filterMap index.change?).filter Change.isReplaced := by
  induction segments generalizing start with
  | nil => rfl
  | cons segment segments ih =>
    rw [editsFrom, List.map_append, ih, List.filterMap_cons]
    cases segment with
    | plain c => rfl
    | found reference source =>
      rw [change?_found, edit?]
      cases index.verdict reference with
      | keep => rfl
      | flag candidates => exact (List.filter_cons_of_neg Bool.false_ne_true).symm
      | redirect target => exact (List.filter_cons_of_pos rfl).symm

/-! ### The edits of a text -/

/-- The repair makes edits in the text after the relocations, all at once and in places that do not overlap:
    those of each form that its stage alone would make. Each lets a reference lead to an indexable file of
    the name that the reference leads by. The records are those that the stages alone would make. -/
theorem repair_eq_substitute {root : Bytes} {files : List ProjectFile}
    (hfiles : ∀ file ∈ files, file.IsBelow root ∧ QuoteFree file.relative) (text : Text) :
    ∃ moved relocations edits, Relocation.applyAll Relocation.table text = (moved, relocations) ∧
      (ofFiles files).repair text = ⟨Edit.substitute edits moved,
        relocations ++ ((ofFiles files).repairForm .load moved).changes ++
          ((ofFiles files).repairForm .relativeLoad moved).changes ++
          ((ofFiles files).repairForm .extResource moved).changes⟩ ∧
      edits.Pairwise (fun a b => a.stop ≤ b.start) ∧
      (∀ form, edits.filter (·.reference.form = form) = (ofFiles files).edits form moved ∧
        ((ofFiles files).edits form moved).map Edit.change =
          ((ofFiles files).repairForm form moved).changes.filter Change.isReplaced) ∧
      ∀ edit ∈ edits, Spelled edit.reference edit.source ∧ edit.source <+: moved.drop edit.start ∧
        ∃ file ∈ files, file.isIndexable = true ∧ file.canonical = edit.target ∧
          file.basename = edit.reference.name := by
  have hsound := sound_ofFiles hfiles
  obtain ⟨segments, hlayout, htext⟩ := Layout.exists_layout (Relocation.applyAll Relocation.table text).1 false
  obtain ⟨hrepair, -⟩ := repair_layout hsound hlayout htext
  refine ⟨Segment.text segments, _, (ofFiles files).editsFrom 0 segments, Prod.ext htext.symm rfl, ?_,
    pairwise_editsFrom 0 segments, fun form => ⟨?_, ?_⟩, fun edit hmem => ?_⟩
  · rw [hrepair, Edit.substitute, substituteFrom_editsFrom]
    simp only [repairForm_layout hlayout]
  · rw [edits, ← editsFrom_considered 0 (cut form _), hlayout.cut_layout.1 form nofun, editsFrom_ofForm]
  · exact changes_editsFrom 0 _
  · obtain ⟨before, after, rfl, hstart, hverdict⟩ := of_mem_editsFrom hmem
    obtain ⟨-, hunique, -⟩ := verdict_eq_redirect_iff.mp hverdict
    obtain ⟨file, hfile, hindexable, hcanonical, hname⟩ := exists_of_resolve hunique
    have hspelled := (hlayout.spelled_of_mem (List.mem_append_right _ List.mem_cons_self)).1
    refine ⟨hspelled, ?_, file, hfile, hindexable, hcanonical, ?_⟩
    · rw [hstart, text_append, text_cons, Nat.zero_add, List.drop_left]
      exact List.prefix_append _ _
    · rw [← ProjectFile.basename_canonical (hfiles file hfile).1, hcanonical, hname]

theorem repair_eq_substitute_sample : ∃ edits,
    ((ofFiles ProjectFile.sample).repair "load('./P.gd') path='res://P.gd'".toList).text =
      Edit.substitute edits "load('./P.gd') path='res://P.gd'".toList ∧
    edits.Pairwise (fun a b => a.stop ≤ b.start) ∧
    edits.filter (·.reference.form = .relativeLoad) =
      [⟨0, .relativeLoad .load "P.gd".toList, "load('./P.gd')".toList, "res://A/P.gd".toList⟩] ∧
    edits.filter (·.reference.form = .extResource) =
      [⟨15, .extResource "res://P.gd".toList, "path='res://P.gd'".toList, "res://A/P.gd".toList⟩] := by
  have hmoved : Relocation.applyAll Relocation.table "load('./P.gd') path='res://P.gd'".toList =
      ("load('./P.gd') path='res://P.gd'".toList, []) := by decide +kernel
  have hrelatives : (ofFiles ProjectFile.sample).edits .relativeLoad "load('./P.gd') path='res://P.gd'".toList =
      [⟨0, .relativeLoad .load "P.gd".toList, "load('./P.gd')".toList, "res://A/P.gd".toList⟩] := by decide +kernel
  have hattributes : (ofFiles ProjectFile.sample).edits .extResource "load('./P.gd') path='res://P.gd'".toList =
      [⟨15, .extResource "res://P.gd".toList, "path='res://P.gd'".toList, "res://A/P.gd".toList⟩] := by decide +kernel
  obtain ⟨moved, relocations, edits, happly, hrepair, hdisjoint, hforms, -⟩ :=
    repair_eq_substitute ProjectFile.isBelow_of_mem_sample "load('./P.gd') path='res://P.gd'".toList
  cases happly.symm.trans hmoved
  refine ⟨edits, congrArg Repaired.text hrepair, hdisjoint, ?_, ?_⟩
  · rw [(hforms .relativeLoad).1, hrelatives]
  · rw [(hforms .extResource).1, hattributes]

end Index
end Relink

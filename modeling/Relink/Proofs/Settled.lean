import Relink.Proofs.Layout.Hit
import Relink.Proofs.Target

/-! # Repaired texts are settled

After the repair no reference is stale: wherever one can be read whose name leads to one file, it leads to
that file. So repairing once more has nothing to redirect. It changes the text only where the repair itself
has written an old path of the table of relocations. -/

namespace Relink
open Reference Segment

namespace Index
variable {index : Index} {reference : Reference} {target : Text}

theorem path_eq_of_leadsTo (h : reference.leadsTo target = true) :
    reference.path = target ∧ reference.form ≠ .relativeLoad := by
  cases reference with
  | load => exact ⟨of_decide_eq_true h, nofun⟩
  | relativeLoad => cases h
  | extResource => exact ⟨of_decide_eq_true h, nofun⟩

/-! ### No stale reference -/

theorem path_of_mem_map_redirect (hsound : index.Sound) {segments : List Segment} {source : Text}
    (hmem : .found reference source ∈ segments.map index.redirect) (hconsidered : considers reference = true)
    (hunique : index.resolve reference.name = .unique target) :
    reference.path = target ∧ reference.form ≠ .relativeLoad := by
  refine path_eq_of_leadsTo ?_
  cases hleads : reference.leadsTo target with
  | true => rfl
  | false =>
    have hverdict := verdict_eq_redirect_iff.mpr ⟨hconsidered, hunique, hleads⟩
    exact absurd hverdict (verdict_of_mem_map_redirect hsound hmem)

/-- A call that is read anywhere in a repaired layout leads to the file that its name leads to. -/
theorem path_of_hit?_map_redirect (hsound : index.Sound) {segments : List Segment}
    (h : Layout false (segments.map index.redirect)) {form : Form} (hform : form ≠ .extResource) {before rest : Text}
    (htext : Segment.text (segments.map index.redirect) = before ++ rest) {hit : Hit}
    (hhit : hit? form before.getLast? rest = some hit)
    (hunique : index.resolve hit.reference.name = .unique target) :
    hit.reference.path = target ∧ form ≠ .relativeLoad := by
  obtain ⟨reference, source, hmem, hreference, hpath⟩ := h.exists_of_hit? hform ⟨before, htext.symm⟩ hhit
  have hname : reference.name = hit.reference.name := congrArg Resource.basename hpath
  have hsettled := path_of_mem_map_redirect hsound hmem (h.spelled_of_mem hmem).2 (hname ▸ hunique)
  exact ⟨hpath ▸ hsettled.1, hreference ▸ hsettled.2⟩

/-- An attribute that a cut of a repaired layout finds leads to the file that its name leads to. -/
theorem path_of_cut_map_redirect (hsound : index.Sound) {segments : List Segment}
    (h : Layout false (segments.map index.redirect)) {source : Text}
    (hcut : .found reference source ∈ cut .extResource (Segment.text (segments.map index.redirect)))
    (hconsidered : considers reference = true) (hunique : index.resolve reference.name = .unique target) :
    reference.path = target := by
  have hmem : .found reference source ∈ (segments.map index.redirect).flatMap (ofForm .extResource) := by
    rw [← h.cut_layout.1 .extResource nofun]
    refine List.mem_flatMap.mpr ⟨_, hcut, ?_⟩
    rw [considered_found hconsidered]
    exact List.mem_singleton_self _
  obtain ⟨segment, hsegment, hof⟩ := List.mem_flatMap.mp hmem
  rw [mem_ofForm hof] at hsegment
  exact (path_of_mem_map_redirect hsound hsegment hconsidered hunique).1

/-- No reference that leads to one file is stale in a repaired text: neither a call, wherever it is read, nor
    an attribute that the text is cut at. -/
theorem repair_not_stale {root : Bytes} {files : List ProjectFile}
    (hfiles : ∀ file ∈ files, file.IsBelow root ∧ QuoteFree file.relative) (text : Text) :
    (∀ before rest hit, ((ofFiles files).repair text).text = before ++ rest →
      hit? .load before.getLast? rest = some hit →
      ∀ target, (ofFiles files).resolve hit.reference.name = .unique target → hit.reference.path = target) ∧
    (∀ before rest hit, ((ofFiles files).repair text).text = before ++ rest →
      hit? .relativeLoad before.getLast? rest = some hit →
      ∀ target, (ofFiles files).resolve hit.reference.name ≠ .unique target) ∧
    ∀ reference source, .found reference source ∈ cut .extResource ((ofFiles files).repair text).text →
      Resource.hasIndexableExtension reference.name = true →
      ∀ target, (ofFiles files).resolve reference.name = .unique target → reference.path = target := by
  have hsound := sound_ofFiles hfiles
  obtain ⟨segments, hlayout, htext⟩ := Layout.exists_layout (Relocation.applyAll Relocation.table text).1 false
  obtain ⟨hrepair, hrepaired⟩ := repair_layout hsound hlayout htext
  rw [hrepair]
  refine ⟨fun before rest hit he hhit target hunique => ?_, fun before rest hit he hhit target hunique => ?_,
    fun reference source hcut hindexable target hunique => ?_⟩
  · exact (path_of_hit?_map_redirect hsound hrepaired (by decide) he hhit hunique).1
  · exact (path_of_hit?_map_redirect hsound hrepaired (by decide) he hhit hunique).2 rfl
  · have hconsidered : considers reference = true := by
      cases reference with
      | extResource => exact hindexable
      | _ => rfl
    exact path_of_cut_map_redirect hsound hrepaired hcut hconsidered hunique

theorem repair_not_stale_sample :
    (∀ file ∈ ProjectFile.sample, file.IsBelow (Utf8.encode "/p".toList) ∧ QuoteFree file.relative) ∧
    ((ofFiles ProjectFile.sample).repair "load('./P.gd')".toList).text = "load(\"res://A/P.gd\")".toList ∧
    ∀ hit, hit? .load none "load(\"res://A/P.gd\")".toList = some hit → hit.reference.name = "P.gd".toList →
      hit.reference.path = "res://A/P.gd".toList := by
  have hrepair : ((ofFiles ProjectFile.sample).repair "load('./P.gd')".toList).text =
      "load(\"res://A/P.gd\")".toList := by decide +kernel
  have hresolve : (ofFiles ProjectFile.sample).resolve "P.gd".toList = .unique "res://A/P.gd".toList := by
    decide +kernel
  obtain ⟨hload, -, -⟩ := repair_not_stale ProjectFile.isBelow_of_mem_sample "load('./P.gd')".toList
  refine ⟨ProjectFile.isBelow_of_mem_sample, hrepair, fun hit hhit hname => ?_⟩
  rw [← hname] at hresolve
  exact hload [] _ hit hrepair hhit _ hresolve

end Index

/-! ### Repairing again -/

namespace Change

/-- Whether a record tells of a replaced reference. -/
def isReplaced (change : Change) : Bool :=
  match change.outcome with
  | .replaced _ => true
  | _ => false

/-- Whether a record tells of an ambiguous reference. -/
def isAmbiguous (change : Change) : Bool :=
  match change.outcome with
  | .ambiguous _ => true
  | _ => false

theorem isReplaced_of_isAmbiguous {change : Change} (h : change.isAmbiguous = true) : change.isReplaced = false := by
  rw [isAmbiguous] at h
  rw [isReplaced]
  split at h
  · rename_i paths houtcome
    rw [houtcome]
  · cases h

end Change

namespace Relocation

theorem of_mem_applyAll {relocations : List Relocation} {text : Text} {change : Change}
    (h : change ∈ (applyAll relocations text).2) : change.kind = .hardcoded ∧ change.isAmbiguous = false := by
  induction relocations generalizing text with
  | nil => cases h
  | cons relocation relocations ih =>
    rw [applyAll] at h
    split at h
    · rcases List.mem_cons.mp h with rfl | h
      · refine ⟨rfl, ?_⟩
        rw [Change.isAmbiguous, Relocation.change, outcome]
        cases relocation.destination <;> rfl
      · exact ih h
    · exact ih h

/-- When no old path with a new one occurs, the text stays and nothing is recorded as replaced. -/
theorem applyAll_eq_self {relocations : List Relocation} {text : Text}
    (h : ∀ relocation ∈ relocations, ∀ path, relocation.destination = .moved path → ¬ relocation.old <:+: text) :
    (applyAll relocations text).1 = text ∧ ∀ change ∈ (applyAll relocations text).2, change.isReplaced = false := by
  induction relocations with
  | nil => exact ⟨rfl, nofun⟩
  | cons relocation relocations ih =>
    have ih := ih fun other hother => h other (List.mem_cons_of_mem _ hother)
    rw [applyAll]
    split
    · rename_i hcontains
      cases hdestination : relocation.destination with
      | moved path => exact absurd (Text.contains_iff.mp hcontains) (h relocation List.mem_cons_self path hdestination)
      | removed =>
        have happly : relocation.apply text = text := by rw [apply, hdestination]
        rw [happly]
        refine ⟨ih.1, fun change hmem => ?_⟩
        rcases List.mem_cons.mp hmem with rfl | hmem
        · rw [Change.isReplaced, Relocation.change, outcome, hdestination]
        · exact ih.2 change hmem
    · exact ih

end Relocation

namespace Index
variable {index : Index} {segments : List Segment}

theorem kind_of_mem_changes {form : Form} {change : Change} (h : change ∈ segments.filterMap (index.changeForm? form)) :
    change.kind ≠ .hardcoded := by
  obtain ⟨segment, -, hchange⟩ := List.mem_filterMap.mp h
  cases segment with
  | plain c => cases hchange
  | found reference source =>
    rw [changeForm?_found] at hchange
    split at hchange
    · obtain ⟨outcome, -, rfl⟩ := Option.map_eq_some_iff.mp hchange
      cases reference <;> simp [Reference.kind]
    · cases hchange

theorem changeForm?_redirect (hsound : index.Sound) (form : Form) (segment : Segment) :
    index.changeForm? form (index.redirect segment) = (index.changeForm? form segment).filter Change.isAmbiguous := by
  cases segment with
  | plain => rfl
  | found reference source =>
    cases hverdict : index.verdict reference with
    | redirect target =>
      have hkeep := (verdict_redirection hsound hverdict).2
      simp only [redirect, hverdict, changeForm?_found, hkeep]
      split <;> split <;> rfl
    | keep =>
      simp only [redirect, hverdict, changeForm?_found]
      split <;> rfl
    | flag candidates =>
      simp only [redirect, hverdict, changeForm?_found]
      split <;> rfl

/-- Of the records made of a layout, the repaired layout makes those that are ambiguous. -/
theorem changes_map_redirect (hsound : index.Sound) (form : Form) :
    (segments.map index.redirect).filterMap (index.changeForm? form) =
      (segments.filterMap (index.changeForm? form)).filter Change.isAmbiguous := by
  rw [List.filterMap_map, List.filter_filterMap]
  exact List.filterMap_congr fun segment _ => changeForm?_redirect hsound form segment

/-- Unless the repaired text has an old path with a new one, repairing it again leaves it as it is, replaces
    no reference and records the same ambiguous references. -/
theorem repair_repair {root : Bytes} {files : List ProjectFile}
    (hfiles : ∀ file ∈ files, file.IsBelow root ∧ QuoteFree file.relative) (text : Text)
    (hmoved : ∀ relocation ∈ Relocation.table, ∀ path, relocation.destination = .moved path →
      ¬ relocation.old <:+: ((ofFiles files).repair text).text) :
    ((ofFiles files).repair ((ofFiles files).repair text).text).text = ((ofFiles files).repair text).text ∧
    (∀ change ∈ ((ofFiles files).repair ((ofFiles files).repair text).text).changes, change.isReplaced = false) ∧
    ((ofFiles files).repair ((ofFiles files).repair text).text).changes.filter (·.kind ≠ .hardcoded) =
      ((ofFiles files).repair text).changes.filter Change.isAmbiguous := by
  have hsound := sound_ofFiles hfiles
  generalize ofFiles files = index at hsound hmoved ⊢
  obtain ⟨segments, hlayout, htext⟩ := Layout.exists_layout (Relocation.applyAll Relocation.table text).1 false
  obtain ⟨hrepair, hrepaired⟩ := repair_layout hsound hlayout htext
  obtain ⟨hstays, hdeprecated⟩ := Relocation.applyAll_eq_self hmoved
  have hagain := (repair_layout hsound hrepaired (by rw [hstays, hrepair])).1
  have hredirect : (segments.map index.redirect).map index.redirect = segments.map index.redirect := by
    rw [List.map_map]
    exact List.map_congr_left fun segment _ => redirect_redirect hsound segment
  have hfirst : (Relocation.applyAll Relocation.table text).2.filter Change.isAmbiguous = [] :=
    List.filter_eq_nil_iff.mpr fun change hmem => by simp [(Relocation.of_mem_applyAll hmem).2]
  have hsecond : ∀ t, (Relocation.applyAll Relocation.table t).2.filter (·.kind ≠ .hardcoded) = [] := fun t =>
    List.filter_eq_nil_iff.mpr fun change hmem => by simp [(Relocation.of_mem_applyAll hmem).1]
  have hforms : ∀ form, ((segments.filterMap (index.changeForm? form)).filter Change.isAmbiguous).filter
      (·.kind ≠ .hardcoded) = (segments.filterMap (index.changeForm? form)).filter Change.isAmbiguous := fun form =>
    List.filter_eq_self.mpr fun change hmem => by simpa using kind_of_mem_changes (List.mem_filter.mp hmem).1
  rw [hagain, hredirect]
  refine ⟨by rw [hrepair], fun change hmem => ?_, ?_⟩
  · simp only [changes_map_redirect hsound, List.mem_append, List.mem_filter] at hmem
    rcases hmem with ((hmem | ⟨-, hambiguous⟩) | ⟨-, hambiguous⟩) | ⟨-, hambiguous⟩
    · exact hdeprecated change hmem
    · exact Change.isReplaced_of_isAmbiguous hambiguous
    · exact Change.isReplaced_of_isAmbiguous hambiguous
    · exact Change.isReplaced_of_isAmbiguous hambiguous
  · simp only [hrepair, changes_map_redirect hsound, List.filter_append, hfirst, hsecond, hforms]

theorem repair_repair_sample :
    ((ofFiles ProjectFile.sample).repair "load('./P.gd') load('./Q.gd')".toList).text =
      "load(\"res://A/P.gd\") load('./Q.gd')".toList ∧
    ((ofFiles ProjectFile.sample).repair "load(\"res://A/P.gd\") load('./Q.gd')".toList).text =
      "load(\"res://A/P.gd\") load('./Q.gd')".toList := by
  have hrepair : ((ofFiles ProjectFile.sample).repair "load('./P.gd') load('./Q.gd')".toList).text =
      "load(\"res://A/P.gd\") load('./Q.gd')".toList := by decide +kernel
  have hnone : ∀ relocation ∈ Relocation.table,
      ¬ relocation.old <:+: "load(\"res://A/P.gd\") load('./Q.gd')".toList := by decide +kernel
  have hmoved : ∀ relocation ∈ Relocation.table, ∀ path, relocation.destination = .moved path →
      ¬ relocation.old <:+: ((ofFiles ProjectFile.sample).repair "load('./P.gd') load('./Q.gd')".toList).text := by
    intro relocation hmem path hdestination
    rw [hrepair]
    exact hnone relocation hmem
  have hagain := (repair_repair ProjectFile.isBelow_of_mem_sample _ hmoved).1
  rw [hrepair] at hagain
  exact ⟨hrepair, hagain⟩

end Index
end Relink

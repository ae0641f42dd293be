import Mathlib.Data.List.Nodup
import Relink.Proofs.Overlapping
import Relink.Proofs.Reporting
import Relink.Proofs.Surroundings

/-! # What the log says

A record comes from the table of relocations or from where the index says that a name leads. Its key tells how
the reference was written and with which path, although the keys of all calls start alike. So one index never
logs two things under one key, whatever texts it repairs, and what it logs as ambiguous is in its report. -/

namespace Relink
open Reference Segment

namespace Change
variable {change other : Change} {kind otherKind : Kind} {path otherPath : Text}

theorem head?_label_append (kind : Kind) (path : Text) : (kind.label ++ path).head? = kind.label.head? := by
  refine List.head?_append_of_ne_nil _ ?_
  cases kind <;> decide

/-- A path with the scheme is not one that starts with a dot. -/
theorem load_label_append_ne (h : Resource.scheme <+: path) :
    Kind.load.label ++ path ≠ Kind.relativeLoad.label ++ otherPath := by
  have hlabel : Kind.relativeLoad.label = Kind.load.label ++ relativeMark := by decide
  have hscheme : ∀ rest, (Resource.scheme ++ rest).head? = some 'r' := fun _ => rfl
  have hdot : ∀ rest, (relativeMark ++ rest).head? = some '.' := fun _ => rfl
  obtain ⟨rest, rfl⟩ := h
  rw [hlabel, List.append_assoc]
  intro h
  have hhead := congrArg List.head? (List.append_cancel_left h)
  rw [hscheme, hdot] at hhead
  exact absurd hhead (by decide)

theorem label_append_inj (hload : kind = .load → Resource.scheme <+: path)
    (hload' : otherKind = .load → Resource.scheme <+: otherPath)
    (h : kind.label ++ path = otherKind.label ++ otherPath) : kind = otherKind ∧ path = otherPath := by
  have hhead : kind.label.head? = otherKind.label.head? := by
    rw [← head?_label_append kind path, h, head?_label_append]
  have hkind : kind = otherKind := by
    -- Apart from the two kinds of calls, the first letter tells.
    cases kind <;> cases otherKind
    case load.relativeLoad => exact absurd h (load_label_append_ne (hload rfl))
    case relativeLoad.load => exact absurd h.symm (load_label_append_ne (hload' rfl))
    all_goals first | rfl | exact absurd hhead (by decide)
  subst hkind
  exact ⟨rfl, List.append_cancel_left h⟩

end Change

namespace Relocation
variable {relocations : List Relocation} {text : Text} {change : Change}

theorem exists_of_mem_applyAll (h : change ∈ (applyAll relocations text).2) :
    ∃ relocation ∈ relocations, change = relocation.change := by
  induction relocations generalizing text with
  | nil => cases h
  | cons relocation relocations ih =>
    rw [applyAll] at h
    split at h
    · rcases List.mem_cons.mp h with rfl | h
      · exact ⟨relocation, List.mem_cons_self, rfl⟩
      · obtain ⟨other, hother, rfl⟩ := ih h
        exact ⟨other, List.mem_cons_of_mem _ hother, rfl⟩
    · obtain ⟨other, hother, rfl⟩ := ih h
      exact ⟨other, List.mem_cons_of_mem _ hother, rfl⟩

end Relocation

namespace Index
variable {index : Index} {reference : Reference} {text : Text} {tied : List Text} {change other : Change}

theorem verdict_eq_flag_iff : index.verdict reference = .flag tied ↔
    considers reference = true ∧ index.resolve reference.name = .ambiguous tied := by
  rw [verdict]
  split
  · rename_i hconsidered
    cases hresolve : index.resolve reference.name with
    | unique target =>
      dsimp only
      split <;> simp
    | ambiguous candidates => simp [hconsidered]
    | notFound => simp
  · rename_i hignored
    simp [hignored]

/-- What an index can log: a relocation of the table, or what becomes of a reference that can be written. -/
inductive Logs (index : Index) : Change → Prop
  | relocated {relocation : Relocation} (hmem : relocation ∈ Relocation.table) : Logs index relocation.change
  | judged {reference : Reference} {outcome : Change.Outcome} (hwritable : reference.Writable)
      (houtcome : (index.verdict reference).outcome? = some outcome) :
      Logs index ⟨reference.kind, reference.path, outcome⟩

theorem logs_of_mem_repairForm {form : Form} (h : change ∈ (index.repairForm form text).changes) :
    index.Logs change := by
  obtain ⟨segments, hlayout, rfl⟩ := Layout.exists_layout text false
  rw [repairForm_layout hlayout] at h
  obtain ⟨segment, hmem, hchange⟩ := List.mem_filterMap.mp h
  cases segment with
  | plain c => cases hchange
  | found reference source =>
    rw [changeForm?_found] at hchange
    split at hchange
    · obtain ⟨outcome, houtcome, rfl⟩ := Option.map_eq_some_iff.mp hchange
      exact .judged (hlayout.spelled_of_mem hmem).1.writable houtcome
    · cases hchange

theorem logs_of_mem_repair (h : change ∈ (index.repair text).changes) : index.Logs change := by
  rw [repair_eq_stages] at h
  simp only [List.mem_append] at h
  rcases h with ((h | h) | h) | h
  · obtain ⟨relocation, hmem, rfl⟩ := Relocation.exists_of_mem_applyAll h
    exact .relocated hmem
  · exact logs_of_mem_repairForm h
  · exact logs_of_mem_repairForm h
  · exact logs_of_mem_repairForm h

namespace Logs

theorem scheme_prefix (h : index.Logs change) (hkind : change.kind = .load) : Resource.scheme <+: change.path := by
  cases h with
  | relocated => cases hkind
  | @judged reference outcome hwritable =>
    obtain ⟨body, hquoted, -, -⟩ := hwritable
    cases reference with
    | load callee path => exact ⟨body, hquoted.symm⟩
    | relativeLoad => cases hkind
    | extResource => cases hkind

theorem eq_of_key_eq (h : index.Logs change) (hother : index.Logs other) (hkey : change.key = other.key) :
    change = other := by
  obtain ⟨hkind, hpath⟩ := Change.label_append_inj h.scheme_prefix hother.scheme_prefix hkey
  cases h with
  | relocated hmem =>
    cases hother with
    | relocated hmem' => rw [List.inj_on_of_nodup_map Relocation.nodup_table hmem hmem' hpath]
    | @judged reference => cases reference <;> cases hkind
  | @judged reference outcome hwritable houtcome =>
    cases hother with
    | relocated => cases reference <;> cases hkind
    | @judged reference' outcome' hwritable' houtcome' =>
      have hform : reference.form = reference'.form := by
        cases reference <;> cases reference' <;> first | rfl | cases hkind
      rw [verdict_congr hform hpath, houtcome', Option.some.injEq] at houtcome
      subst houtcome
      dsimp only at hkind hpath
      rw [hkind, hpath]

theorem resolve_of_ambiguous (h : index.Logs change) (houtcome : change.outcome = .ambiguous tied) :
    index.resolve (Resource.basename change.path) = .ambiguous tied := by
  cases h with
  | @relocated relocation =>
    rw [Relocation.change, Relocation.outcome] at houtcome
    cases hdestination : relocation.destination <;> simp [hdestination] at houtcome
  | @judged reference outcome hwritable hverdict =>
    cases hresult : index.verdict reference with
    | keep => simp [hresult, Verdict.outcome?] at hverdict
    | redirect target =>
      rw [hresult, Verdict.outcome?, Option.some.injEq] at hverdict
      subst hverdict
      cases houtcome
    | flag candidates =>
      rw [hresult, Verdict.outcome?, Option.some.injEq] at hverdict
      subst hverdict
      cases houtcome
      exact (verdict_eq_flag_iff.mp hresult).2

end Logs

/-- Records that an index makes under one key, be it in two texts, are the same. What a record lists as ambiguous is
    what its name leads to, two candidates at least, and the index reports the name; and a run sums up the report of
    the index that it made its records with. -/
theorem log_consistent :
    (∀ (index : Index) (text otherText : Text), ∀ change ∈ (index.repair text).changes,
      ∀ other ∈ (index.repair otherText).changes, change.key = other.key → change = other) ∧
    (∀ (index : Index) (text : Text), ∀ change ∈ (index.repair text).changes, ∀ tied, change.outcome = .ambiguous tied →
      index.resolve (Resource.basename change.path) = .ambiguous tied ∧ 2 ≤ tied.length ∧
        Resource.basename change.path ∈ index.ambiguousNames) ∧
    ∀ system tree working settings summary, (Run.run system tree working settings).outcome = .ok summary →
      ∃ location files complaints, tree.locate working settings.path = .ok location ∧
        Run.discover system tree working settings (Ignore.pathOf location) = .ok (files, complaints) ∧
        summary.ambiguous = (ofFiles files).ambiguousNames := by
  refine ⟨?_, ?_, ?_⟩
  · intro index text otherText change hmem other hother hkey
    exact (logs_of_mem_repair hmem).eq_of_key_eq (logs_of_mem_repair hother) hkey
  · intro index text change hmem tied houtcome
    have hresolve := (logs_of_mem_repair hmem).resolve_of_ambiguous houtcome
    exact ⟨hresolve, two_le_length_of_resolve hresolve, mem_ambiguousNames_of_resolve hresolve⟩
  · intro system tree working settings summary h
    obtain ⟨location, files, complaints, hlocate, hdiscover, -, -, rfl⟩ := Run.exists_of_outcome h
    exact ⟨location, files, complaints, hlocate, hdiscover, rfl⟩

theorem log_consistent_sample :
    (∃ change ∈ ((ofFiles ProjectFile.sample).repair "load('./Q.gd')".toList).changes,
      ∃ other ∈ ((ofFiles ProjectFile.sample).repair "preload(\x22./Q.gd\x22 ) load('res://Q.gd')".toList).changes,
        change.key = other.key ∧ change = other ∧
        change.outcome = .ambiguous ["res://A/Q.gd".toList, "res://B/Q.gd".toList] ∧
        "Q.gd".toList ∈ (ofFiles ProjectFile.sample).ambiguousNames) ∧
    (Run.run Run.sampleSystem Run.sample [] Run.sampleSettings).outcome = .ok ⟨⟨2, 0, 1, 0, 1⟩, []⟩ ∧
    (ofFiles Run.sampleFiles).ambiguousNames = [] := by
  obtain ⟨hkey, hambiguous, hrun⟩ := log_consistent
  have hmem : ⟨.relativeLoad, "Q.gd".toList, .ambiguous ["res://A/Q.gd".toList, "res://B/Q.gd".toList]⟩ ∈
      ((ofFiles ProjectFile.sample).repair "load('./Q.gd')".toList).changes := by decide +kernel
  have hother : ∃ other ∈ ((ofFiles ProjectFile.sample).repair
      "preload(\x22./Q.gd\x22 ) load('res://Q.gd')".toList).changes, other.key = "preload:./Q.gd".toList := by
    decide +kernel
  obtain ⟨other, hmem', hsame⟩ := hother
  have hone := hkey _ _ _ _ hmem other hmem' hsame.symm
  obtain ⟨-, -, hreported⟩ := hambiguous _ _ _ hmem _ rfl
  refine ⟨⟨_, hmem, other, hmem', hsame.symm, hone, rfl, hreported⟩, Run.outcome_sample, ?_⟩
  obtain ⟨location, files, complaints, hlocate, hdiscover, hreport⟩ := hrun _ _ _ _ _ Run.outcome_sample
  have hlocation : [Utf8.encode "p".toList] = location := Except.ok.inj (Run.locate_sample.symm.trans hlocate)
  rw [← hlocation] at hdiscover
  have hfiles : (Run.sampleFiles, []) = (files, complaints) := Except.ok.inj (Run.discover_sample.symm.trans hdiscover)
  obtain ⟨rfl, -⟩ := Prod.mk.inj hfiles
  exact hreport.symm

end Index
end Relink

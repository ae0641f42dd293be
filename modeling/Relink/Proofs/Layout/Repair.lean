import Mathlib.Data.List.Basic
import Relink.Proofs.Layout.Respelling
import Relink.Repair

/-! # Repairing a layout

The repair of a form redirects the references that the layout has of that form, and respells them in the
place where they stand. The result has a layout again, and what an earlier stage redirected is left alone by
the later ones; so the stages together redirect each reference of the layout once. -/

namespace Relink
open Reference Segment

namespace Reference
variable {reference : Reference} {target : Text}

/-- The reference that leads to `target` instead. -/
def redirection (reference : Reference) (target : Text) : Reference :=
  match reference with
  | load callee _ => load callee target
  | relativeLoad callee _ => load callee target
  | extResource _ => extResource target

theorem keyword_redirection : (reference.redirection target).keyword = reference.keyword := by
  cases reference <;> rfl

theorem path_redirection : (reference.redirection target).path = target := by
  cases reference <;> rfl

theorem leadsTo_redirection : (reference.redirection target).leadsTo target = true := by
  cases reference <;> simp [redirection, leadsTo]

theorem spelled_redirection (h : (extResource target).Writable) :
    Spelled (reference.redirection target) (reference.redirected target) := by
  have hblank : Blank [] := fun _ h => absurd h List.not_mem_nil
  have hcall : ∀ callee : Callee,
      Spelled (.load callee target) (callee.name ++ ['(', '\x22'] ++ target ++ ['\x22', ')']) := fun callee => by
    have hspelled : Spelled (.load callee target)
        ((callee.name ++ '(' :: []) ++ '\x22' :: (target ++ '\x22' :: ([] ++ [')']))) :=
      .intro ⟨[], hblank, rfl⟩ rfl h rfl ⟨[], hblank, rfl⟩
    simpa using hspelled
  cases reference with
  | load callee => exact hcall callee
  | relativeLoad callee => exact hcall callee
  | extResource =>
    have hspelled : Spelled (.extResource target) (attributeMark ++ '\x22' :: (target ++ '\x22' :: [])) :=
      .intro rfl rfl h rfl rfl
    show Spelled (.extResource target) (attributeMark ++ ['\x22'] ++ target ++ ['\x22'])
    simpa using hspelled

end Reference

namespace Index
variable {index : Index} {reference : Reference} {target : Text}

/-- What the repair needs of an index: a name leads to a path of this name, and the path can be written
    between quotes. -/
structure Sound (index : Index) : Prop where
  name : ∀ name target, index.resolve name = .unique target → Resource.basename target = name
  writable : ∀ name target, index.resolve name = .unique target → (Reference.extResource target).Writable

theorem verdict_eq_redirect_iff : index.verdict reference = .redirect target ↔
    considers reference = true ∧ index.resolve reference.name = .unique target ∧ reference.leadsTo target = false := by
  unfold verdict
  split
  · rename_i hconsidered
    split
    · rename_i path hunique
      split
      · rename_i hleads
        simp only [hconsidered, hunique, reduceCtorEq, Resolution.unique.injEq, true_and, false_iff, not_and]
        rintro rfl
        simp [hleads]
      · rename_i hleads
        simp only [hconsidered, hunique, Verdict.redirect.injEq, Resolution.unique.injEq, true_and]
        exact ⟨fun h => ⟨h, by simpa [← h] using hleads⟩, And.left⟩
    · rename_i hambiguous
      simp [hambiguous]
    · rename_i hnone
      simp [hnone]
  · rename_i hignored
    simp [hignored]

/-- A reference that was redirected is kept. -/
theorem verdict_redirection (hsound : index.Sound) (h : index.verdict reference = .redirect target) :
    considers (reference.redirection target) = true ∧ index.verdict (reference.redirection target) = .keep := by
  obtain ⟨hconsidered, hunique, -⟩ := verdict_eq_redirect_iff.mp h
  have hname : Resource.basename target = reference.name := hsound.name _ _ hunique
  have hname' : (reference.redirection target).name = reference.name := by rw [name, path_redirection, hname]
  have hconsidered' : considers (reference.redirection target) = true := by
    cases reference with
    | load => rfl
    | relativeLoad => rfl
    | extResource path =>
      have hpath : Resource.hasIndexableExtension (Resource.basename path) = true := hconsidered
      rw [redirection, considers, hname]
      exact hpath
  refine ⟨hconsidered', ?_⟩
  rw [verdict, if_pos hconsidered', hname', hunique]
  exact if_pos leadsTo_redirection

/-! ### One stage -/

/-- A segment with its reference redirected. -/
def redirect (index : Index) : Segment → Segment
  | .plain c => .plain c
  | .found reference source =>
    match index.verdict reference with
    | .redirect target => .found (reference.redirection target) (reference.redirected target)
    | _ => .found reference source

/-- A segment after the repair of the references of a form. -/
def redirectForm (index : Index) (form : Form) : Segment → Segment
  | .plain c => .plain c
  | .found reference source =>
    if reference.form = form then index.redirect (.found reference source) else .found reference source

/-- The record made of a segment in the repair of a form. -/
def changeForm? (index : Index) (form : Form) (segment : Segment) : Option Change :=
  if segment.reference?.any (·.form = form) then index.change? segment else none

theorem redirect_of_kept {source : Text} (hkept : ∀ target, index.verdict reference ≠ .redirect target) :
    index.redirect (.found reference source) = .found reference source := by
  rw [redirect]
  split
  · rename_i target hverdict
    exact absurd hverdict (hkept target)
  · rfl

theorem redirectForm_of_kept {source : Text} (hkept : ∀ target, index.verdict reference ≠ .redirect target)
    (form : Form) : index.redirectForm form (.found reference source) = .found reference source := by
  rw [redirectForm, redirect_of_kept hkept, ite_self]

theorem change?_found (reference : Reference) (source : Text) : index.change? (.found reference source) =
    (index.verdict reference).outcome?.map fun outcome => ⟨reference.kind, reference.path, outcome⟩ := by
  cases hverdict : index.verdict reference <;> simp [change?, reference?, hverdict, Verdict.outcome?]

theorem changeForm?_of_eq {source : Text} {form : Form} (h : reference.form = form) :
    index.changeForm? form (.found reference source) = index.change? (.found reference source) := by
  simp [changeForm?, reference?, h]

theorem changeForm?_of_ne {source : Text} {form : Form} (h : reference.form ≠ form) :
    index.changeForm? form (.found reference source) = none := by
  simp [changeForm?, reference?, h]

theorem changeForm?_found (form : Form) (reference : Reference) (source : Text) :
    index.changeForm? form (.found reference source) = if reference.form = form then
      (index.verdict reference).outcome?.map fun outcome => ⟨reference.kind, reference.path, outcome⟩ else none := by
  split
  · rename_i hform
    rw [changeForm?_of_eq hform, change?_found]
  · rename_i hform
    exact changeForm?_of_ne hform

theorem verdict_ignored (h : considers reference = false) : index.verdict reference = .keep := by
  simp [verdict, h]

theorem source_redirect (segment : Segment) : (index.redirect segment).source = index.replacement segment := by
  cases segment with
  | plain => rfl
  | found reference source =>
    simp only [redirect, replacement]
    cases index.verdict reference <;> rfl

theorem flatMap_replacement_plains (a : Text) : (plains a).flatMap index.replacement = a := by
  induction a with
  | nil => rfl
  | cons c a ih =>
    rw [plains_cons, List.flatMap_cons, ih]
    rfl

theorem filterMap_change?_plains (a : Text) : (plains a).filterMap index.change? = [] := by
  rw [List.filterMap_eq_nil_iff]
  intro segment hmem
  obtain ⟨c, -, rfl⟩ := List.mem_map.mp hmem
  rfl

/-- References whose name is not looked up have no influence. -/
theorem flatMap_considered (index : Index) (segments : List Segment) :
    (segments.flatMap considered).flatMap index.replacement = segments.flatMap index.replacement ∧
      (segments.flatMap considered).filterMap index.change? = segments.filterMap index.change? := by
  induction segments with
  | nil => exact ⟨rfl, rfl⟩
  | cons segment segments ih =>
    obtain ⟨htext, hchanges⟩ := ih
    rw [List.flatMap_cons, List.flatMap_append, List.filterMap_append, htext, hchanges, List.flatMap_cons,
      List.filterMap_cons]
    cases segment with
    | plain c => exact ⟨rfl, rfl⟩
    | found reference source =>
      cases hconsidered : considers reference with
      | true =>
        rw [considered_found hconsidered, List.flatMap_singleton, List.filterMap_cons, List.filterMap_nil]
        exact ⟨rfl, by split <;> rfl⟩
      | false =>
        rw [considered_ignored hconsidered, flatMap_replacement_plains, filterMap_change?_plains]
        rw [change?_found, replacement, verdict_ignored hconsidered]
        exact ⟨rfl, rfl⟩

theorem flatMap_ofForm (index : Index) (form : Form) (segments : List Segment) :
    (segments.flatMap (ofForm form)).flatMap index.replacement = Segment.text (segments.map (index.redirectForm form)) ∧
      (segments.flatMap (ofForm form)).filterMap index.change? = segments.filterMap (index.changeForm? form) := by
  induction segments with
  | nil => exact ⟨rfl, rfl⟩
  | cons segment segments ih =>
    obtain ⟨htext, hchanges⟩ := ih
    rw [List.flatMap_cons, List.flatMap_append, List.filterMap_append, htext, hchanges, List.map_cons, text_cons,
      List.filterMap_cons]
    cases segment with
    | plain c => exact ⟨rfl, rfl⟩
    | found reference source =>
      by_cases hform : reference.form = form
      · rw [ofForm_of_eq hform, List.flatMap_singleton, List.filterMap_cons, List.filterMap_nil, redirectForm,
          if_pos hform, source_redirect, changeForm?_of_eq hform]
        exact ⟨rfl, by split <;> rfl⟩
      · rw [ofForm_of_ne hform, flatMap_replacement_plains, filterMap_change?_plains, redirectForm, if_neg hform,
          changeForm?_of_ne hform]
        exact ⟨rfl, rfl⟩

/-- The repair of a form redirects the references that the layout has of that form. -/
theorem repairForm_layout {segments : List Segment} (h : Layout false segments) (form : Form) :
    index.repairForm form (Segment.text segments) =
      ⟨Segment.text (segments.map (index.redirectForm form)), segments.filterMap (index.changeForm? form)⟩ := by
  have hcut := h.cut_layout.1 form nofun
  obtain ⟨htext, hchanges⟩ := flatMap_considered index (cut form (Segment.text segments))
  obtain ⟨htext', hchanges'⟩ := flatMap_ofForm index form segments
  rw [repairForm, ← htext, ← hchanges, hcut, htext', hchanges']

/-- Redirecting references respells them. -/
theorem respells_redirectForm (hsound : index.Sound) {segments : List Segment} (h : Layout false segments)
    (form : Form) : Respells (index.redirectForm form) segments where
  plain _ := rfl
  found reference source hmem := by
    obtain ⟨hspelled, hconsidered⟩ := h.spelled_of_mem hmem
    have hkeep : ∃ reference' source', Segment.found reference source = .found reference' source' ∧
        reference'.keyword = reference.keyword ∧ Spelled reference' source' ∧ considers reference' = true :=
      ⟨reference, source, rfl, rfl, hspelled, hconsidered⟩
    rw [redirectForm]
    split
    · rw [redirect]
      split
      · rename_i target hverdict
        have hunique := (verdict_eq_redirect_iff.mp hverdict).2.1
        exact ⟨_, _, rfl, keyword_redirection, spelled_redirection (hsound.writable _ _ hunique),
          (verdict_redirection hsound hverdict).1⟩
      · exact hkeep
    · exact hkeep

/-! ### All stages -/

/-- A stage leaves the references of the other forms alone and adds none but calls with a resource path. -/
theorem changeForm?_redirectForm {form form' : Form} (hne : form ≠ form') (hload : form ≠ .load) (segment : Segment) :
    index.changeForm? form (index.redirectForm form' segment) = index.changeForm? form segment := by
  cases segment with
  | plain => rfl
  | found reference source =>
    rw [redirectForm]
    split
    · rename_i hform
      have hother : reference.form ≠ form := fun h => hne (h.symm.trans hform)
      rw [changeForm?_of_ne hother]
      simp only [redirect]
      split
      · refine changeForm?_of_ne ?_
        cases reference with
        | relativeLoad => exact hload.symm
        | _ => exact hother
      · exact changeForm?_of_ne hother
    · rfl

theorem redirectForm_redirectForm (segment : Segment) :
    index.redirectForm .extResource (index.redirectForm .relativeLoad (index.redirectForm .load segment)) =
      index.redirect segment := by
  cases segment with
  | plain => rfl
  | found reference source =>
    cases hverdict : index.verdict reference <;> cases reference <;>
      simp [redirectForm, redirect, hverdict, form, redirection]

/-- The stages redirect each reference once and record those of each form in the order of the text. -/
theorem repair_layout (hsound : index.Sound) {segments : List Segment} (h : Layout false segments) {text : Text}
    (htext : Segment.text segments = (Relocation.applyAll Relocation.table text).1) :
    index.repair text = ⟨Segment.text (segments.map index.redirect),
      (Relocation.applyAll Relocation.table text).2 ++ segments.filterMap (index.changeForm? .load) ++
        segments.filterMap (index.changeForm? .relativeLoad) ++ segments.filterMap (index.changeForm? .extResource)⟩ ∧
    Layout false (segments.map index.redirect) := by
  have hload := h.map (respells_redirectForm hsound h .load)
  have hrelative := hload.map (respells_redirectForm hsound hload .relativeLoad)
  have hattribute := hrelative.map (respells_redirectForm hsound hrelative .extResource)
  have hredirect : ((segments.map (index.redirectForm .load)).map (index.redirectForm .relativeLoad)).map
      (index.redirectForm .extResource) = segments.map index.redirect := by
    rw [List.map_map, List.map_map]
    exact List.map_congr_left fun segment _ => redirectForm_redirectForm segment
  -- What the earlier stages wrote adds nothing to the records of the later ones.
  have hrelatives : (segments.map (index.redirectForm .load)).filterMap (index.changeForm? .relativeLoad) =
      segments.filterMap (index.changeForm? .relativeLoad) := by
    rw [List.filterMap_map]
    exact List.filterMap_congr fun segment _ => changeForm?_redirectForm (by decide) (by decide) segment
  have hattributes : ((segments.map (index.redirectForm .load)).map (index.redirectForm .relativeLoad)).filterMap
      (index.changeForm? .extResource) = segments.filterMap (index.changeForm? .extResource) := by
    rw [List.map_map, List.filterMap_map]
    exact List.filterMap_congr fun segment _ => (changeForm?_redirectForm (by decide) (by decide) _).trans
      (changeForm?_redirectForm (by decide) (by decide) segment)
  refine ⟨?_, hredirect ▸ hattribute⟩
  rw [repair]
  generalize Relocation.applyAll Relocation.table text = moved at htext ⊢
  obtain ⟨moved, relocations⟩ := moved
  dsimp only at htext ⊢
  rw [← htext, repairForm_layout h, repairForm_layout hload, repairForm_layout hrelative, hredirect, hrelatives,
    hattributes]

/-- Redirecting again changes nothing. -/
theorem redirect_redirect (hsound : index.Sound) (segment : Segment) :
    index.redirect (index.redirect segment) = index.redirect segment := by
  cases segment with
  | plain => rfl
  | found reference source =>
    cases hverdict : index.verdict reference with
    | redirect target =>
      simp only [redirect, hverdict, (verdict_redirection hsound hverdict).2]
    | keep => simp only [redirect, hverdict]
    | flag candidates => simp only [redirect, hverdict]

/-- No reference of a repaired layout is to be redirected. -/
theorem verdict_of_mem_map_redirect (hsound : index.Sound) {segments : List Segment} {reference : Reference}
    {source : Text} (hmem : .found reference source ∈ segments.map index.redirect) {target : Text} :
    index.verdict reference ≠ .redirect target := by
  intro hverdict
  obtain ⟨segment, -, he⟩ := List.mem_map.mp hmem
  have hredirect := redirect_redirect hsound segment
  rw [he] at hredirect
  simp only [redirect, hverdict] at hredirect
  have hleads := (verdict_eq_redirect_iff.mp hverdict).2.2
  rw [← (Segment.found.inj hredirect).1, leadsTo_redirection] at hleads
  cases hleads

end Index
end Relink

import Relink.Proofs.Accounting
import Relink.Proofs.Surroundings

/-! # What the records tell of the text

When all records are warnings, no stage has changed the text. When some record tells of a replacement, the
text has changed: edits never undo one another. Where the first relocation applies, the text goes on with a
letter that no old path has, and only an edit that writes the old path again could restore it. A redirected
reference has another path between the quotes that it opens and closes with. -/

namespace Relink
open Reference Segment

namespace Text
variable {old text : Text}

/-- The first occurrence is replaced where it stands. -/
theorem exists_replaceAll_of_infix (hne : old ≠ []) (h : old <:+: text) (new : Text) :
    ∃ x y, text = x ++ (old ++ y) ∧ replaceAll old new text = x ++ (new ++ replaceAll old new y) := by
  induction text with
  | nil => exact absurd (List.infix_nil.mp h) hne
  | cons c text ih =>
    by_cases hfront : old <+: c :: text
    · obtain ⟨y, hy⟩ := hfront
      exact ⟨[], y, hy.symm, by rw [← hy, replaceAll_of_prefix hne, List.nil_append]⟩
    · obtain ⟨x, y, rfl, hreplace⟩ := ih ((List.infix_cons_iff.mp h).resolve_left hfront)
      refine ⟨c :: x, y, rfl, ?_⟩
      rw [replaceAll, replaceFrom, if_neg (mt List.isPrefixOf_iff_prefix.mp hfront)]
      exact congrArg (c :: ·) hreplace

end Text

namespace Relocation
variable {relocation : Relocation} {relocations : List Relocation} {text moved path : Text}

/-! ### Relocated texts -/

/-- Up to an old path the texts agree. Where it goes on after the scheme, the other text has the letter that
    new paths have there. -/
def Diverges (text moved : Text) : Prop :=
  ∃ relocation ∈ table, ∃ path, relocation.destination = .moved path ∧
    ∃ x y z, text = x ++ (relocation.old ++ y) ∧ moved = x ++ (Resource.scheme ++ 'V' :: z)

theorem diverges_replaceAll (hmem : relocation ∈ table) (hdestination : relocation.destination = .moved path)
    (h : relocation.old <:+: text) : Diverges text (Text.replaceAll relocation.old path text) := by
  have hmoves := moves_of_mem_table hmem hdestination
  obtain ⟨x, y, htext, hreplace⟩ := Text.exists_replaceAll_of_infix hmoves.ne_nil h path
  obtain ⟨rest, hpath⟩ := hmoves.path_eq
  refine ⟨relocation, hmem, path, hdestination, x, y, rest ++ Text.replaceAll relocation.old path y, htext, ?_⟩
  calc Text.replaceAll relocation.old path text
    _ = x ++ (path ++ Text.replaceAll relocation.old path y) := hreplace
    _ = x ++ (Resource.scheme ++ 'V' :: rest ++ Text.replaceAll relocation.old path y) := by rw [← hpath]
    _ = x ++ (Resource.scheme ++ 'V' :: (rest ++ Text.replaceAll relocation.old path y)) := by
      rw [List.append_assoc, List.cons_append]

theorem Diverges.replaceAll (h : Diverges text moved) (hmem : relocation ∈ table)
    (hdestination : relocation.destination = .moved path) :
    Diverges text (Text.replaceAll relocation.old path moved) := by
  have hmoves := moves_of_mem_table hmem hdestination
  obtain ⟨first, hfirst, path', hfirstMoved, x, y, z, rfl, rfl⟩ := h
  rw [← List.append_assoc x Resource.scheme, Text.replaceAll_append_cons hmoves.ne_nil hmoves.fresh]
  by_cases hbefore : relocation.old <:+: x ++ Resource.scheme
  · -- This old path occurs further in front, so the texts now go apart there.
    obtain ⟨rest, hold⟩ := (moves_of_mem_table hfirst hfirstMoved).old_eq
    obtain ⟨rest', hpath⟩ := hmoves.path_eq
    obtain ⟨x', y', hsplit, hreplace⟩ := Text.exists_replaceAll_of_infix hmoves.ne_nil hbefore path
    refine ⟨relocation, hmem, path, hdestination, x', y' ++ ('b' :: rest ++ y), rest' ++
      (Text.replaceAll relocation.old path y' ++ 'V' :: Text.replaceAll relocation.old path z), ?_, ?_⟩
    · calc x ++ (first.old ++ y)
        _ = x ++ Resource.scheme ++ ('b' :: rest ++ y) := by rw [hold]; simp only [List.append_assoc]
        _ = x' ++ (relocation.old ++ (y' ++ ('b' :: rest ++ y))) := by rw [hsplit]; simp only [List.append_assoc]
    · calc Text.replaceAll relocation.old path (x ++ Resource.scheme) ++ 'V' :: Text.replaceAll relocation.old path z
        _ = x' ++ (path ++ Text.replaceAll relocation.old path y') ++ 'V' :: Text.replaceAll relocation.old path z := by
          rw [hreplace]
        _ = x' ++ (Resource.scheme ++ 'V' :: rest' ++ Text.replaceAll relocation.old path y') ++
            'V' :: Text.replaceAll relocation.old path z := by rw [← hpath]
        _ = _ := by simp only [List.append_assoc, List.cons_append]
  · rw [Text.replaceAll_eq_self hbefore, List.append_assoc]
    exact ⟨first, hfirst, path', hfirstMoved, x, y, _, rfl, rfl⟩

theorem Diverges.applyAll (h : Diverges text moved) (hmem : ∀ relocation ∈ relocations, relocation ∈ table) :
    Diverges text (applyAll relocations moved).1 := by
  induction relocations generalizing moved with
  | nil => exact h
  | cons relocation relocations ih =>
    rw [applyAll_cons_text]
    refine ih ?_ fun other hother => hmem other (List.mem_cons_of_mem _ hother)
    cases hdestination : relocation.destination with
    | moved path =>
      rw [apply, hdestination]
      exact h.replaceAll (hmem relocation List.mem_cons_self) hdestination
    | removed =>
      rw [apply, hdestination]
      exact h

/-- Either no relocation changes the text and all that is recorded are warnings, or the text changes and a
    replacement is recorded. -/
theorem applyAll_unchanged_or_diverges (hmem : ∀ relocation ∈ relocations, relocation ∈ table) (text : Text) :
    ((applyAll relocations text).1 = text ∧ ∀ change ∈ (applyAll relocations text).2, change.isWarning = true) ∨
      Diverges text (applyAll relocations text).1 ∧
        ∃ change ∈ (applyAll relocations text).2, change.isWarning = false := by
  induction relocations with
  | nil => exact Or.inl ⟨rfl, nofun⟩
  | cons relocation relocations ih =>
    have ih := ih fun other hother => hmem other (List.mem_cons_of_mem _ hother)
    rw [applyAll]
    split
    · rename_i hcontains
      cases hdestination : relocation.destination with
      | moved path =>
        have happly : relocation.apply text = Text.replaceAll relocation.old path text := by rw [apply, hdestination]
        have hfirst := diverges_replaceAll (hmem relocation List.mem_cons_self) hdestination
          (Text.contains_iff.mp hcontains)
        rw [happly]
        refine Or.inr ⟨hfirst.applyAll fun other hother => hmem other (List.mem_cons_of_mem _ hother),
          relocation.change, List.mem_cons_self, ?_⟩
        rw [Change.isWarning, Relocation.change, outcome, hdestination]
      | removed =>
        have happly : relocation.apply text = text := by rw [apply, hdestination]
        have hwarning : relocation.change.isWarning = true := by
          rw [Change.isWarning, Relocation.change, outcome, hdestination]
        rw [happly]
        rcases ih with ⟨hsame, hwarnings⟩ | ⟨hdiverges, change, hchange, hreplaced⟩
        · exact Or.inl ⟨hsame, List.forall_mem_cons.mpr ⟨hwarning, hwarnings⟩⟩
        · exact Or.inr ⟨hdiverges, change, List.mem_cons_of_mem _ hchange, hreplaced⟩
    · exact ih

end Relocation

namespace Reference
variable {reference reference' : Reference} {source source' : Text}

/-! ### Spellings of two references at one place -/

theorem prefix_of_quoteFree {a b y z : Text} {q : Char} (ha : QuoteFree a) (hq : isQuote q = true)
    (h : a ++ y = b ++ q :: z) : a <+: b := by
  rcases List.append_eq_append_iff.mp h with ⟨c, hb, -⟩ | ⟨c, hc, hrest⟩
  · exact ⟨c, hb.symm⟩
  · cases c with
    | nil => exact ⟨[], by rw [hc, List.append_nil, List.append_nil]⟩
    | cons d c =>
      obtain ⟨rfl, -⟩ := List.cons.inj hrest
      have hnot : isQuote q = false := ha q (hc ▸ List.mem_append_right _ List.mem_cons_self)
      rw [hq] at hnot
      cases hnot

theorem Spelled.quoted_eq (h : Spelled reference source) (h' : Spelled reference' source') {u v : Text}
    (he : source ++ u = source' ++ v) : reference.quoted = reference'.quoted := by
  obtain ⟨hlead, hopening, hwritable, hclosing, htrail⟩ := h
  simp only [List.append_assoc, List.cons_append] at he
  obtain ⟨-, hwritable', closing', trail', hclosing', -, hrest⟩ :=
    h'.at_quote (Keyword.quoteFree_of_leads hlead) hopening he
  exact (append_cons_inj hwritable.quoteFree hwritable'.quoteFree hclosing hclosing' hrest).1

/-- The scheme can stand in a reference only between its quotes. -/
theorem Spelled.exists_before_scheme (h : Spelled reference source) {x s : Text}
    (he : source = x ++ (Resource.scheme ++ s)) :
    ∃ lead opening front, x = lead ++ opening :: front ∧ QuoteFree lead ∧ isQuote opening = true ∧ QuoteFree front := by
  obtain @⟨lead, trail, opening, closing, hlead, hopening, hwritable, hclosing, htrail⟩ := h
  have hquote : ∀ {q : Char}, isQuote q = true → q ≠ 'r' := by
    rintro q hq rfl
    cases hq
  rcases List.append_eq_append_iff.mp he with ⟨front, rfl, hrest⟩ | ⟨a, rfl, hrest⟩
  · cases front with
    | nil => exact absurd (List.cons.inj hrest).1 (hquote hopening)
    | cons c front =>
      obtain ⟨rfl, hinside⟩ := List.cons.inj hrest
      refine ⟨lead, opening, front, rfl, Keyword.quoteFree_of_leads hlead, hopening, ?_⟩
      rcases List.append_eq_append_iff.mp hinside with ⟨b, -, hb⟩ | ⟨b, hb, -⟩
      · -- The trail would have the first letter of the scheme.
        have hr : 'r' ∈ closing :: trail := hb ▸ List.mem_append_right _ List.mem_cons_self
        rcases List.mem_cons.mp hr with hr | hr
        · exact absurd hr.symm (hquote hclosing)
        · exact absurd rfl (Form.not_mem_of_trails htrail hr).2.2.1
      · exact (quoteFree_append.mp (hb ▸ hwritable.quoteFree)).1
  · have hscheme : Resource.scheme <+: a := prefix_of_quoteFree (by decide) hopening hrest
    have hs : 's' ∈ a := hscheme.subset (by decide)
    exact absurd (List.mem_append_right _ hs) (Keyword.s_notMem_of_leads hlead)

theorem Spelled.infix_quoted (h : Spelled reference source) {lead front old y v : Text} {opening : Char}
    (hlead : QuoteFree lead) (hopening : isQuote opening = true) (hfront : QuoteFree front) (hold : QuoteFree old)
    (he : lead ++ opening :: (front ++ old ++ y) = source ++ v) : old <:+: reference.quoted := by
  obtain ⟨-, -, closing, trail, hclosing, -, hrest⟩ := h.at_quote hlead hopening he
  have hstarts := prefix_of_quoteFree (quoteFree_append.mpr ⟨hfront, hold⟩) hclosing hrest
  exact (List.suffix_append front old).isInfix.trans hstarts.isInfix

variable {target : Text}

theorem quoted_redirection : (reference.redirection target).quoted = target := by
  cases reference <;> rfl

theorem quoted_ne_of_leadsTo (hwritable : (extResource target).Writable) (h : reference.leadsTo target = false) :
    reference.quoted ≠ target := by
  cases reference with
  | load => exact of_decide_eq_false h
  | relativeLoad callee path =>
    obtain ⟨body, hbody, -⟩ := hwritable
    rintro rfl
    exact absurd (List.cons.inj hbody).1 (by decide)
  | extResource => exact of_decide_eq_false h

end Reference

namespace Index
variable {index : Index} {reference : Reference} {source target text : Text} {segments : List Segment}

/-! ### Redirected layouts -/

theorem redirected_append_ne (hsound : index.Sound) (hspelled : Spelled reference source)
    (hverdict : index.verdict reference = .redirect target) (u v : Text) :
    reference.redirected target ++ v ≠ source ++ u := by
  obtain ⟨-, hunique, hleads⟩ := verdict_eq_redirect_iff.mp hverdict
  have hwritable := hsound.writable _ _ hunique
  intro he
  have hquoted := (spelled_redirection hwritable).quoted_eq hspelled he
  rw [quoted_redirection] at hquoted
  exact quoted_ne_of_leadsTo hwritable hleads hquoted.symm

theorem redirect_eq_self_or (index : Index) (segment : Segment) : index.redirect segment = segment ∨
    ∃ reference source target, segment = .found reference source ∧ index.verdict reference = .redirect target := by
  cases segment with
  | plain => exact Or.inl rfl
  | found reference source =>
    by_cases hkept : ∀ target, index.verdict reference ≠ .redirect target
    · exact Or.inl (redirect_of_kept hkept)
    · simp only [not_forall, not_not] at hkept
      obtain ⟨target, hverdict⟩ := hkept
      exact Or.inr ⟨reference, source, target, rfl, hverdict⟩

theorem source_redirect_of_redirect (hverdict : index.verdict reference = .redirect target) :
    (index.redirect (.found reference source)).source = reference.redirected target := by
  simp only [redirect, hverdict, Segment.source]

theorem text_map_redirect_ne (hsound : index.Sound)
    (hspelled : ∀ reference source, .found reference source ∈ segments → Spelled reference source)
    (hredirected : .found reference source ∈ segments) (hverdict : index.verdict reference = .redirect target) :
    Segment.text (segments.map index.redirect) ≠ Segment.text segments := by
  induction segments with
  | nil => cases hredirected
  | cons segment segments ih =>
    have ih := ih fun other source' hmem => hspelled other source' (List.mem_cons_of_mem _ hmem)
    rw [List.map_cons, text_cons, text_cons]
    rcases redirect_eq_self_or index segment with hself | ⟨first, source', target', rfl, hfirst⟩
    · rw [hself, Ne, List.append_cancel_left_eq]
      rcases List.mem_cons.mp hredirected with rfl | hmem
      · simp only [redirect, hverdict] at hself
        have hnot := redirected_append_ne hsound (hspelled reference source List.mem_cons_self) hverdict [] []
        exact absurd (congrArg (· ++ []) (Segment.found.inj hself).2) hnot
      · exact ih hmem
    · rw [source_redirect_of_redirect hfirst]
      exact redirected_append_ne hsound (hspelled first source' List.mem_cons_self) hfirst _ _

section Fork
variable {old rest x y s : Text}

/-- What stands before a new path inside a reference ends in the scheme, because no reference starts inside one. -/
theorem scheme_suffix_of_spelled (hspelled : Spelled reference source) (hs : source = x ++ 'V' :: s)
    (hx : x <:+ Resource.scheme ∨ Resource.scheme <:+ x) : Resource.scheme <:+ x := by
  refine hx.resolve_left fun hsuffix => ?_
  obtain ⟨c, source', rfl, hc⟩ := hspelled.head
  cases x with
  | nil =>
    obtain ⟨rfl, -⟩ := List.cons.inj hs
    exact absurd hc (by decide)
  | cons d x =>
    obtain ⟨rfl, -⟩ := List.cons.inj hs
    have hmem : c ∈ Resource.scheme := hsuffix.subset List.mem_cons_self
    rcases hc with rfl | rfl <;> exact absurd hmem (by decide)

/-- A redirected reference has an old path in the place of a new one only when its target has the old path. -/
theorem redirected_append_ne_of_fork (hsound : index.Sound) (hspelled : Spelled reference source)
    (hverdict : index.verdict reference = .redirect target) (hspared : ¬ old <:+: target)
    (hold : old = Resource.scheme ++ 'b' :: rest) (hquoteFree : QuoteFree old) (hs : source = x ++ 'V' :: s)
    (hx : x <:+ Resource.scheme ∨ Resource.scheme <:+ x) (v : Text) :
    reference.redirected target ++ v ≠ x ++ ('b' :: rest ++ y) := by
  obtain ⟨front, rfl⟩ := scheme_suffix_of_spelled hspelled hs hx
  rw [List.append_assoc] at hs
  obtain ⟨lead, opening, inner, rfl, hlead, hopening, hinner⟩ := hspelled.exists_before_scheme hs
  have hwritable := hsound.writable _ _ (verdict_eq_redirect_iff.mp hverdict).2.1
  have hwritten : Spelled (reference.redirection target) (reference.redirected target) := spelled_redirection hwritable
  intro he
  have hinfix : old <:+: (reference.redirection target).quoted := by
    refine hwritten.infix_quoted (y := y) (v := v) hlead hopening hinner hquoteFree ?_
    rw [he, hold]
    simp only [List.append_assoc, List.cons_append]
  rw [quoted_redirection] at hinfix
  exact hspared hinfix

/-- Where a new path stands in a layout, redirecting its references makes no old path of it, unless one of them is
    led to a file whose path has the old path in it. The induction is on the layout: what is left of the text in
    front of the place ends in the scheme, or is an end of it. -/
theorem text_map_redirect_ne_of_fork (hsound : index.Sound)
    (hspelled : ∀ reference source, .found reference source ∈ segments → Spelled reference source)
    (hspared : ∀ name target, index.resolve name = .unique target → ¬ old <:+: target)
    (hold : old = Resource.scheme ++ 'b' :: rest) (hquoteFree : QuoteFree old) {z : Text}
    (hx : x <:+ Resource.scheme ∨ Resource.scheme <:+ x) (htext : Segment.text segments = x ++ 'V' :: z) :
    Segment.text (segments.map index.redirect) ≠ x ++ ('b' :: rest ++ y) := by
  induction segments generalizing x with
  | nil => exact absurd htext.symm (List.append_ne_nil_of_right_ne_nil _ (List.cons_ne_nil _ _))
  | cons segment segments ih =>
    have hothers : ∀ reference source, .found reference source ∈ segments → Spelled reference source :=
      fun other source' hmem => hspelled other source' (List.mem_cons_of_mem _ hmem)
    rw [text_cons] at htext
    rw [List.map_cons, text_cons]
    have hbehind : ∀ x', x = segment.source ++ x' → Segment.text segments = x' ++ 'V' :: z →
        (index.redirect segment).source ++ Segment.text (segments.map index.redirect) ≠ x ++ ('b' :: rest ++ y) := by
      rintro x' rfl hrest
      rw [List.append_assoc]
      rcases redirect_eq_self_or index segment with hself | ⟨reference, source, target, rfl, hverdict⟩
      · have hsuffix : x' <:+ segment.source ++ x' := List.suffix_append _ _
        rw [hself, Ne, List.append_cancel_left_eq]
        exact ih hothers (hx.elim (fun h => Or.inl (hsuffix.trans h)) (List.suffix_or_suffix_of_suffix hsuffix)) hrest
      · rw [source_redirect_of_redirect hverdict]
        exact redirected_append_ne hsound (hspelled reference source List.mem_cons_self) hverdict _ _
    rcases List.append_eq_append_iff.mp htext with ⟨x', hx', hrest⟩ | ⟨s, hs, hrest⟩
    · exact hbehind x' hx' hrest
    · cases s with
      | nil => exact hbehind [] (by rw [hs, List.append_nil, List.append_nil]) hrest.symm
      | cons c s =>
        obtain ⟨rfl, -⟩ := List.cons.inj hrest
        rcases redirect_eq_self_or index segment with hself | ⟨reference, source, target, rfl, hverdict⟩
        · rw [hself, hs, List.append_assoc, Ne, List.append_cancel_left_eq]
          exact fun he => absurd (List.cons.inj he).1 (by decide)
        · rw [source_redirect_of_redirect hverdict]
          exact redirected_append_ne_of_fork hsound (hspelled reference source List.mem_cons_self) hverdict
            (hspared _ _ (verdict_eq_redirect_iff.mp hverdict).2.1) hold hquoteFree hs hx _

end Fork

/-! ### Records and texts -/

theorem replacement_eq_source (segment : Segment)
    (h : ∀ change, index.change? segment = some change → change.isWarning = true) :
    index.replacement segment = segment.source := by
  cases segment with
  | plain => rfl
  | found reference source =>
    cases hverdict : index.verdict reference with
    | redirect target =>
      have hwarning := h ⟨reference.kind, reference.path, .replaced target⟩ (by rw [change?_found, hverdict]; rfl)
      cases hwarning
    | keep => simp only [replacement, hverdict, Segment.source]
    | flag candidates => simp only [replacement, hverdict, Segment.source]

theorem repairForm_eq_self {form : Form}
    (h : ∀ change ∈ (index.repairForm form text).changes, change.isWarning = true) :
    (index.repairForm form text).text = text := by
  have hcopied : ∀ segment ∈ cut form text, index.replacement segment = segment.source := fun segment hmem =>
    replacement_eq_source segment fun change hchange => h change (List.mem_filterMap.mpr ⟨segment, hmem, hchange⟩)
  calc (index.repairForm form text).text
    _ = (cut form text).flatMap index.replacement := rfl
    _ = (cut form text).flatMap Segment.source := List.flatMap_congr hcopied
    _ = text := flatMap_source_cut form text

theorem repair_eq_self (h : ∀ change ∈ (index.repair text).changes, change.isWarning = true) :
    (index.repair text).text = text := by
  rw [repair_eq_stages] at h ⊢
  simp only [List.forall_mem_append] at h
  obtain ⟨⟨⟨hmoved, hload⟩, hrelative⟩, hattribute⟩ := h
  have hfirst : index.textBefore text .load = text := by
    rcases Relocation.applyAll_unchanged_or_diverges (fun _ h => h) text with
      ⟨hsame, -⟩ | ⟨-, change, hchange, hreplaced⟩
    · exact hsame
    · rw [hmoved change hchange] at hreplaced
      cases hreplaced
  have hsecond : index.textBefore text .relativeLoad = text := (repairForm_eq_self hload).trans hfirst
  have hthird : index.textBefore text .extResource = text := (repairForm_eq_self hrelative).trans hsecond
  exact (repairForm_eq_self hattribute).trans hthird

/-- A replacement that is recorded of a layout is that of one of its references. -/
theorem exists_redirect_of_changeForm? {form : Form} {change : Change}
    (hmem : change ∈ segments.filterMap (index.changeForm? form)) (h : change.isWarning = false) :
    ∃ reference source target, .found reference source ∈ segments ∧ index.verdict reference = .redirect target := by
  obtain ⟨segment, hsegment, hchange⟩ := List.mem_filterMap.mp hmem
  cases segment with
  | plain => cases hchange
  | found reference source =>
    rw [changeForm?_found] at hchange
    split at hchange
    · cases hverdict : index.verdict reference with
      | redirect target => exact ⟨reference, source, target, hsegment, hverdict⟩
      | keep =>
        rw [hverdict] at hchange
        cases hchange
      | flag candidates =>
        rw [hverdict] at hchange
        cases hchange
        cases h
    · cases hchange

theorem repair_ne_self (hsound : index.Sound)
    (hspared : ∀ name target, index.resolve name = .unique target → ∀ relocation ∈ Relocation.table, ∀ path,
      relocation.destination = .moved path → ¬ relocation.old <:+: target) {change : Change}
    (hmem : change ∈ (index.repair text).changes) (hreplaced : change.isWarning = false) :
    (index.repair text).text ≠ text := by
  obtain ⟨segments, hlayout, htext⟩ := Layout.exists_layout (Relocation.applyAll Relocation.table text).1 false
  have hspelled : ∀ reference source, .found reference source ∈ segments → Spelled reference source :=
    fun reference source h => (hlayout.spelled_of_mem h).1
  rw [(repair_layout hsound hlayout htext).1] at hmem ⊢
  rcases Relocation.applyAll_unchanged_or_diverges (fun _ h => h) text with ⟨hsame, hwarnings⟩ | ⟨hdiverges, -⟩
  · have hredirect : ∃ reference source target, .found reference source ∈ segments ∧
        index.verdict reference = .redirect target := by
      simp only [List.mem_append] at hmem
      rcases hmem with ((hmem | hmem) | hmem) | hmem
      · rw [hwarnings change hmem] at hreplaced
        cases hreplaced
      · exact exists_redirect_of_changeForm? hmem hreplaced
      · exact exists_redirect_of_changeForm? hmem hreplaced
      · exact exists_redirect_of_changeForm? hmem hreplaced
    obtain ⟨reference, source, target, hfound, hverdict⟩ := hredirect
    have hne := text_map_redirect_ne hsound hspelled hfound hverdict
    rwa [htext, hsame] at hne
  · obtain ⟨relocation, hrelocation, path, hdestination, x, y, z, rfl, hmoved⟩ := hdiverges
    have hmoves := Relocation.moves_of_mem_table hrelocation hdestination
    obtain ⟨rest, hold⟩ := hmoves.old_eq
    rw [← htext, ← List.append_assoc] at hmoved
    have hne := text_map_redirect_ne_of_fork hsound hspelled (y := y)
      (fun name target hunique => hspared name target hunique relocation hrelocation path hdestination) hold
      hmoves.quoteFree_old (Or.inr (List.suffix_append x Resource.scheme)) hmoved
    rw [hold]
    simpa only [List.append_assoc] using hne

/-- A text of which only warnings are recorded stays as it is. A text of which a replacement is recorded changes,
    provided no file has an old path in its own; then a packing counts the files that have such a record. -/
theorem change_log :
    (∀ (index : Index) (text : Text), (∀ change ∈ (index.repair text).changes, change.isWarning = true) →
      (index.repair text).text = text) ∧
    ∀ (root : Bytes) (files : List ProjectFile), (∀ file ∈ files, file.IsBelow root ∧ QuoteFree file.relative) →
      (∀ file ∈ files, ∀ relocation ∈ Relocation.table, ∀ path, relocation.destination = .moved path →
        ¬ relocation.old <:+: file.canonical) →
      (∀ text, (∃ change ∈ ((ofFiles files).repair text).changes, change.isWarning = false) →
        ((ofFiles files).repair text).text ≠ text) ∧
      ∀ archiver verbose archive reads whole summary,
        (Packing.into archiver (ofFiles files) verbose archive reads).outcome = .ok (whole, summary) →
        summary.tally.modified =
          (Packing.readable reads).countP fun read => ((ofFiles files).repair read.2).changes.any (!·.isWarning) := by
  refine ⟨fun index text => repair_eq_self, fun root files hfiles hspared => ?_⟩
  have hchanged : ∀ text, (∃ change ∈ ((ofFiles files).repair text).changes, change.isWarning = false) →
      ((ofFiles files).repair text).text ≠ text := by
    rintro text ⟨change, hmem, hreplaced⟩
    refine repair_ne_self (sound_ofFiles hfiles) (fun name target hunique => ?_) hmem hreplaced
    obtain ⟨file, hfile, -, rfl, -⟩ := exists_of_resolve hunique
    exact hspared file hfile
  refine ⟨hchanged, fun archiver verbose archive reads whole summary hpacked => ?_⟩
  obtain ⟨-, -, rfl⟩ := Packing.outcome_into_eq_ok_iff.mp hpacked
  refine List.countP_congr fun read _ => ?_
  simp only [decide_eq_true_iff, List.any_eq_true, Bool.not_eq_true']
  refine ⟨fun hne => ?_, hchanged read.2⟩
  by_contra hnone
  refine hne (repair_eq_self fun change hmem => ?_)
  exact Bool.of_not_eq_false fun hreplaced => hnone ⟨change, hmem, hreplaced⟩

theorem change_log_sample :
    (∀ file ∈ ProjectFile.sample, file.IsBelow (Utf8.encode "/p".toList) ∧ QuoteFree file.relative) ∧
    (∀ file ∈ ProjectFile.sample, ∀ relocation ∈ Relocation.table, ¬ relocation.old <:+: file.canonical) ∧
    ((ofFiles ProjectFile.sample).repair "load('./Q.gd')".toList).text = "load('./Q.gd')".toList ∧
    ((ofFiles ProjectFile.sample).repair "load('./P.gd')".toList).text ≠ "load('./P.gd')".toList ∧
    ∃ whole summary, (Packing.into Zip.archiver (ofFiles ProjectFile.sample) false []
      Packing.sampleReads).outcome = .ok (whole, summary) ∧ summary.tally.modified = 1 := by
  have hspared : ∀ file ∈ ProjectFile.sample, ∀ relocation ∈ Relocation.table,
      ¬ relocation.old <:+: file.canonical := by
    decide +kernel
  have hwarnings : ∀ change ∈ ((ofFiles ProjectFile.sample).repair "load('./Q.gd')".toList).changes,
      change.isWarning = true := by decide +kernel
  have hreplaced : ∃ change ∈ ((ofFiles ProjectFile.sample).repair "load('./P.gd')".toList).changes,
      change.isWarning = false := by decide +kernel
  obtain ⟨hsame, hlog⟩ := change_log
  obtain ⟨hchanged, hcount⟩ := hlog _ _ ProjectFile.isBelow_of_mem_sample
    fun file hfile relocation hmem _ _ => hspared file hfile relocation hmem
  have hpacked : (Packing.into Zip.archiver (ofFiles ProjectFile.sample) false [] Packing.sampleReads).outcome =
      .ok (_, _) := Packing.outcome_into_eq_ok_iff.mpr ⟨Packing.accepts_sample, rfl, rfl⟩
  refine ⟨ProjectFile.isBelow_of_mem_sample, hspared, hsame _ _ hwarnings, hchanged _ hreplaced, _, _, hpacked, ?_⟩
  rw [hcount _ false _ _ _ _ hpacked]
  decide +kernel

end Index
end Relink

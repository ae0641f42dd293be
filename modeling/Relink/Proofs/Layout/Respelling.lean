import Relink.Proofs.Layout

/-! # Respelling the references of a layout

The references of a layout may be spelled anew with other quotes, blanks and paths, as long as each keeps
its keyword and has a name that is looked up. The result is a layout again: whether a reference opens at a
quote outside the references depends on what respelling leaves as it is. -/

namespace Relink
open Reference Segment

/-- A function that keeps the characters of a layout and spells its references anew. -/
structure Respells (f : Segment → Segment) (segments : List Segment) : Prop where
  plain : ∀ c, f (.plain c) = .plain c
  found : ∀ reference source, .found reference source ∈ segments →
    ∃ reference' source', f (.found reference source) = .found reference' source' ∧
      reference'.keyword = reference.keyword ∧ Spelled reference' source' ∧ Index.considers reference' = true

namespace Respells
variable {f : Segment → Segment} {segments : List Segment}

theorem rest {a rest : List Segment} {segment : Segment} (h : Respells f (a ++ segment :: rest)) : Respells f rest where
  plain := h.plain
  found reference source hmem := h.found reference source (List.mem_append_right _ (List.mem_cons_of_mem _ hmem))

theorem map_plains (h : Respells f segments) (a : Text) : (plains a).map f = plains a := by
  unfold plains
  rw [List.map_map]
  exact List.map_congr_left fun c _ => h.plain c

theorem map_quote (h : Respells f segments) (a : Text) (q : Char) (rest : List Segment) :
    (plains a ++ .plain q :: rest).map f = plains a ++ .plain q :: rest.map f := by
  rw [List.map_append, List.map_cons, h.map_plains, h.plain]

theorem map_found {front source : Text} {reference : Reference} {rest : List Segment}
    (h : Respells f (plains front ++ .found reference source :: rest)) :
    ∃ reference' source', (plains front ++ .found reference source :: rest).map f =
        plains front ++ .found reference' source' :: rest.map f ∧
      reference'.keyword = reference.keyword ∧ Spelled reference' source' ∧ Index.considers reference' = true := by
  obtain ⟨reference', source', he, hrest⟩ := h.found reference source (List.mem_append_right _ List.mem_cons_self)
  exact ⟨reference', source', by rw [List.map_append, List.map_cons, h.map_plains, he], hrest⟩

end Respells

namespace Reference

theorem form_eq_extResource_iff {reference : Reference} :
    reference.form = .extResource ↔ reference.keyword = .path := by
  cases reference <;> simp [form, keyword]

/-- Whether a text starts with what follows the closing quote of a reference of the form. -/
def Closes (form : Form) (v : Text) : Prop := ∃ trail rest, form.Trails trail ∧ v = trail ++ rest

/-- Where the first quote stands decides which path a text continues. -/
theorem continues_iff {form : Form} {a v : Text} {q : Char} (ha : QuoteFree a) (hq : isQuote q = true) :
    Continues form (a ++ q :: v) ↔ (∃ body, body ≠ [] ∧ a = form.mark ++ body) ∧ Closes form v := by
  constructor
  · rintro ⟨body, closing, trail, rest, he, hbody, hne, hclosing, htrail⟩
    obtain ⟨rfl, -, rfl⟩ := append_cons_inj ha (quoteFree_append.mpr ⟨Form.quoteFree_mark _, hbody⟩) hq hclosing he
    exact ⟨⟨body, hne, rfl⟩, trail, rest, htrail, rfl⟩
  · rintro ⟨⟨body, hne, rfl⟩, trail, rest, htrail, rfl⟩
    exact ⟨body, q, trail, rest, rfl, (quoteFree_append.mp ha).2, hne, hq, htrail⟩

theorem ignored_iff {a v : Text} {q : Char} (ha : QuoteFree a) (hq : isQuote q = true) :
    Ignored (a ++ q :: v) ↔
      (∃ body, body ≠ [] ∧ a = Resource.scheme ++ body) ∧ Index.considers (.extResource a) = false := by
  constructor
  · rintro ⟨body, closing, rest, he, hbody, hne, hclosing, hnot⟩
    obtain ⟨rfl, -, -⟩ := append_cons_inj ha
      (quoteFree_append.mpr ⟨Form.quoteFree_mark .extResource, hbody⟩) hq hclosing he
    exact ⟨⟨body, hne, rfl⟩, hnot⟩
  · rintro ⟨⟨body, hne, rfl⟩, hnot⟩
    exact ⟨body, q, v, rfl, (quoteFree_append.mp ha).2, hne, hq, hnot⟩

theorem closes_extResource (v : Text) : Closes .extResource v := ⟨[], v, rfl, rfl⟩

theorem closes_iff {form : Form} (hform : form ≠ .extResource) {v : Text} :
    Closes form v ↔ ∃ outer rest, Blank outer ∧ v = outer ++ ')' :: rest := by
  constructor
  · rintro ⟨trail, rest, htrail, rfl⟩
    rcases Form.trails_iff.mp htrail with ⟨-, outer, houter, rfl⟩ | ⟨he, -⟩
    · exact ⟨outer, rest, houter, by simp⟩
    · exact absurd he hform
  · rintro ⟨outer, rest, houter, rfl⟩
    exact ⟨outer ++ [')'], rest, Form.trails_iff.mpr (Or.inl ⟨hform, outer, houter, rfl⟩), by simp⟩

/-- A character that is neither blank nor a parenthesis decides whether a reference is closed before it. -/
theorem closes_congr {form : Form} {a v : Text} {c : Char} (hb : Text.isBlank c = false) (hc : c ≠ ')')
    (h : Closes form (a ++ c :: v)) (w : Text) : Closes form (a ++ w) := by
  by_cases hform : form = .extResource
  · subst hform
    exact closes_extResource _
  obtain ⟨outer, rest, houter, he⟩ := (closes_iff hform).mp h
  rcases List.append_eq_append_iff.mp he with ⟨x, rfl, hx⟩ | ⟨x, rfl, hx⟩
  · -- The blanks would reach beyond `c`.
    cases x with
    | nil => exact absurd (List.cons.inj hx).1 hc
    | cons d x =>
      obtain ⟨rfl, -⟩ := List.cons.inj hx
      rw [houter c (List.mem_append_right _ List.mem_cons_self)] at hb
      cases hb
  · cases x with
    | nil => exact absurd (List.cons.inj hx).1.symm hc
    | cons d x =>
      obtain ⟨rfl, -⟩ := List.cons.inj hx
      exact (closes_iff hform).mpr ⟨outer, x ++ w, houter, by simp⟩

theorem not_closes_quoted {form : Form} (hform : form ≠ .extResource) {reference : Reference}
    (hwritable : reference.Writable) (u : Text) : ¬ Closes form (reference.quoted ++ u) := by
  intro hcloses
  obtain ⟨outer, rest, houter, he⟩ := (closes_iff hform).mp hcloses
  have hhead := hwritable.head u
  rw [he] at hhead
  have hmark : reference.form.mark.head? = some 'r' ∨ reference.form.mark.head? = some '.' := by
    cases reference
    · exact Or.inl rfl
    · exact Or.inr rfl
    · exact Or.inl rfl
  cases outer with
  | nil => rcases hmark with h | h <;> rw [h] at hhead <;> cases hhead
  | cons c outer =>
    have hb := houter c List.mem_cons_self
    rcases hmark with h | h <;> rw [h] at hhead <;> cases hhead <;> exact absurd hb (by decide)

/-- A lead does not add to the scheme before it. -/
theorem scheme_prefix_of_leads {keyword : Keyword} {front lead body : Text} (hlead : keyword.Leads lead)
    (h : front ++ lead = Resource.scheme ++ body) : ∃ body', front = Resource.scheme ++ body' := by
  obtain ⟨c, lead', rfl, hc⟩ := Keyword.head_of_leads hlead
  rcases List.append_eq_append_iff.mp h with ⟨x, hscheme, hx⟩ | ⟨x, rfl, -⟩
  · cases x with
    | nil => exact ⟨[], by simpa using hscheme.symm⟩
    | cons d x =>
      obtain ⟨rfl, -⟩ := List.cons.inj hx
      have hmem : c ∈ Resource.scheme := by simp [hscheme]
      rcases hc with rfl | rfl <;> exact absurd hmem (by decide)
  · exact ⟨x, rfl⟩

end Reference

namespace Layout
variable {busy : Bool} {f : Segment → Segment} {segments : List Segment}

/-- A layout has no quote, or a quote comes first, or a reference. -/
theorem first (h : Layout busy segments) :
    (∃ a, segments = plains a) ∨
    (∃ a q rest busy', segments = plains a ++ .plain q :: rest ∧ QuoteFree a ∧ isQuote q = true ∧ Layout busy' rest) ∨
    ∃ front reference source rest, segments = plains front ++ .found reference source :: rest ∧ QuoteFree front ∧
      Spelled reference source := by
  cases h with
  | last ha => exact Or.inl ⟨_, rfl⟩
  | quote ha hq hno hrest => exact Or.inr (Or.inl ⟨_, _, _, _, rfl, ha, hq, hrest⟩)
  | ignored ha hq hmark hignored hrest => exact Or.inr (Or.inl ⟨_, _, _, _, rfl, ha, hq, hrest⟩)
  | found hfront hbegins hspelled => exact Or.inr (Or.inr ⟨_, _, _, _, rfl, hfront, hspelled⟩)

theorem closes_map (h : Layout busy segments) (hf : Respells f segments) {form : Form}
    (hcloses : Closes form (text (segments.map f))) : Closes form (text segments) := by
  rcases h.first with ⟨a, rfl⟩ | ⟨a, q, rest, busy', rfl, ha, hq, -⟩ | ⟨front, reference, source, rest, rfl, hfront, -⟩
  · rwa [hf.map_plains] at hcloses
  · rw [hf.map_quote, text_quote] at hcloses
    rw [text_quote]
    exact closes_congr (isBlank_of_isQuote hq) (by rintro rfl; cases hq) hcloses _
  · obtain ⟨reference', source', he, -, hspelled', -⟩ := hf.map_found
    obtain ⟨c, tail, rfl, hc⟩ := hspelled'.head
    rw [he, text_found, List.cons_append] at hcloses
    rw [text_found]
    refine closes_congr ?_ ?_ hcloses _
    · rcases hc with rfl | rfl <;> decide
    · rcases hc with rfl | rfl <;> decide

/-- Respelling the references of a text does not make it continue a reference. -/
theorem continues_map (h : Layout busy segments) (hf : Respells f segments) {form : Form}
    (hcontinues : Continues form (text (segments.map f))) : Continues form (text segments) := by
  rcases h.first with ⟨a, rfl⟩ | ⟨a, q, rest, busy', rfl, ha, hq, hrest⟩ |
      ⟨front, reference, source, rest, rfl, hfront, hspelled⟩
  · rwa [hf.map_plains] at hcontinues
  · rw [hf.map_quote, text_quote, continues_iff ha hq] at hcontinues
    rw [text_quote, continues_iff ha hq]
    exact ⟨hcontinues.1, hrest.closes_map hf.rest hcontinues.2⟩
  · obtain ⟨reference', source', he, -, hspelled', -⟩ := hf.map_found
    obtain ⟨lead, opening, tail, hlead, hopening, -, rfl⟩ := hspelled.exists_lead
    obtain ⟨lead', opening', tail', hlead', hopening', hwritable', rfl⟩ := hspelled'.exists_lead
    have hq := quoteFree_append.mpr ⟨hfront, Keyword.quoteFree_of_leads hlead⟩
    have hq' := quoteFree_append.mpr ⟨hfront, Keyword.quoteFree_of_leads hlead'⟩
    rw [he] at hcontinues
    simp only [text_found, List.append_assoc, List.cons_append] at hcontinues ⊢
    rw [← List.append_assoc, continues_iff hq' hopening'] at hcontinues
    rw [← List.append_assoc, continues_iff hq hopening]
    obtain ⟨⟨body, -, hbody⟩, hcloses⟩ := hcontinues
    by_cases hform : form = .extResource
    · subst hform
      obtain ⟨body', rfl⟩ := scheme_prefix_of_leads hlead' hbody
      obtain ⟨c, lead, rfl, -⟩ := Keyword.head_of_leads hlead
      exact ⟨⟨body' ++ c :: lead, by simp, by simp [Form.mark]⟩, closes_extResource _⟩
    · exact absurd hcloses (not_closes_quoted hform hwritable' _)

/-- Respelling leaves an attribute before the text one whose name is not looked up. -/
theorem ignored_map (h : Layout busy segments) (hf : Respells f segments) (hignored : Ignored (text segments)) :
    Ignored (text (segments.map f)) := by
  rcases h.first with ⟨a, rfl⟩ | ⟨a, q, rest, busy', rfl, ha, hq, -⟩ |
      ⟨front, reference, source, rest, rfl, hfront, hspelled⟩
  · rwa [hf.map_plains]
  · rw [text_quote, ignored_iff ha hq] at hignored
    rwa [hf.map_quote, text_quote, ignored_iff ha hq]
  · obtain ⟨reference', source', he, hkeyword, hspelled', -⟩ := hf.map_found
    obtain ⟨lead, opening, tail, hlead, hopening, -, rfl⟩ := hspelled.exists_lead
    obtain ⟨lead', opening', tail', hlead', hopening', -, rfl⟩ := hspelled'.exists_lead
    have hq := quoteFree_append.mpr ⟨hfront, Keyword.quoteFree_of_leads hlead⟩
    have hq' := quoteFree_append.mpr ⟨hfront, Keyword.quoteFree_of_leads hlead'⟩
    rw [he]
    simp only [text_found, List.append_assoc, List.cons_append] at hignored ⊢
    rw [← List.append_assoc, ignored_iff hq hopening] at hignored
    rw [← List.append_assoc, ignored_iff hq' hopening']
    obtain ⟨⟨body, -, hbody⟩, -⟩ := hignored
    obtain ⟨body', rfl⟩ := scheme_prefix_of_leads hlead hbody
    refine ⟨⟨body' ++ lead', ?_, by simp⟩, considers_eq_false (leads_form hlead') (List.suffix_append _ _)⟩
    obtain ⟨c, tail', rfl, -⟩ := Keyword.head_of_leads hlead'
    simp

/-- Respelling the references of a layout gives a layout. -/
theorem map (h : Layout busy segments) (hf : Respells f segments) : Layout busy (segments.map f) := by
  induction h with
  | last ha =>
    rw [hf.map_plains]
    exact .last ha
  | quote ha hq hno hrest ih =>
    rw [hf.map_quote]
    exact .quote ha hq (fun form hform lead hsuffix hlead hcontinues =>
      hno form hform lead hsuffix hlead (hrest.continues_map hf.rest hcontinues)) (ih hf.rest)
  | ignored ha hq hmark hignored hrest ih =>
    rw [hf.map_quote]
    exact .ignored ha hq hmark (hrest.ignored_map hf.rest hignored) (ih hf.rest)
  | found hfront hbegins hspelled hconsidered hidle hrest ih =>
    obtain ⟨reference', source', he, hkeyword, hspelled', hconsidered'⟩ := hf.map_found
    rw [he]
    refine .found hfront (hkeyword ▸ hbegins) hspelled' hconsidered' (fun hbusy hform => ?_) (ih hf.rest)
    rw [form_eq_extResource_iff, hkeyword, ← form_eq_extResource_iff] at hform
    exact hidle hbusy hform

/-! ### The references of a layout -/

theorem spelled_of_mem (h : Layout busy segments) {reference : Reference} {source : Text}
    (hmem : .found reference source ∈ segments) : Spelled reference source ∧ Index.considers reference = true := by
  have hlater : ∀ {a : Text} {segment : Segment} {rest : List Segment},
      .found reference source ∈ plains a ++ segment :: rest →
        .found reference source = segment ∨ .found reference source ∈ rest := by
    intro a segment rest hmem
    rcases List.mem_append.mp hmem with hmem | hmem
    · exact absurd hmem (found_notMem_plains _ _ _)
    · exact List.mem_cons.mp hmem
  induction h with
  | last => exact absurd hmem (found_notMem_plains _ _ _)
  | quote _ _ _ _ ih =>
    rcases hlater hmem with he | hmem
    · cases he
    · exact ih hmem
  | ignored _ _ _ _ _ ih =>
    rcases hlater hmem with he | hmem
    · cases he
    · exact ih hmem
  | found _ _ hspelled hconsidered _ _ ih =>
    rcases hlater hmem with he | hmem
    · cases he
      exact ⟨hspelled, hconsidered⟩
    · exact ih hmem

end Layout
end Relink

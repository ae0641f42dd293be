import Relink.Proofs.Spelling
import Relink.Repair

/-! # Where references open

A quote is where a reference opens when a lead stands before it and a continuation of the same form after
it. The ends of leads, paths and trails differ, so where a reference opens no reference of another form
does, and none opens at its closing quote. -/

namespace Relink
namespace Reference

/-! ### Hits around a quote -/

/-- No reference of the form opens at a quote with `a` before it and `u` after it. -/
def NoSite (form : Form) (a u : Text) : Prop := ∀ lead, lead <:+ a → form.Leads lead → ¬ Continues form u

theorem hit?_congr {form : Form} {previous previous' : Option Char} {text : Text}
    (h : previous.any Text.isWord = previous'.any Text.isWord) : hit? form previous text = hit? form previous' text := by
  refine Option.ext fun hit => ?_
  rw [hit?_eq_some_iff, hit?_eq_some_iff]
  simp only [Keyword.Follows, h]

theorem quoteFree_name (callee : Callee) : QuoteFree callee.name := by
  cases callee <;> decide

theorem Keyword.quoteFree_of_leads {keyword : Keyword} {lead : Text} (h : keyword.Leads lead) : QuoteFree lead := by
  cases keyword with
  | call callee =>
    obtain ⟨inner, hinner, rfl⟩ := h
    exact quoteFree_append.mpr ⟨quoteFree_name callee, quoteFree_cons.mpr ⟨by decide, quoteFree_of_blank hinner⟩⟩
  | path =>
    cases h
    decide

theorem leads_form {reference : Reference} {lead : Text} (h : reference.keyword.Leads lead) :
    reference.form.Leads lead := by
  cases reference with
  | load callee => exact ⟨callee, h⟩
  | relativeLoad callee => exact ⟨callee, h⟩
  | extResource => exact h

/-- A spelling at the front of a text opens at the text's first quote. -/
theorem Spelled.at_quote {reference : Reference} {source rest d u : Text} {q : Char} (h : Spelled reference source)
    (hd : QuoteFree d) (hq : isQuote q = true) (he : d ++ q :: u = source ++ rest) :
    reference.keyword.Leads d ∧ reference.Writable ∧ ∃ closing trail, isQuote closing = true ∧
      reference.form.Trails trail ∧ u = reference.quoted ++ closing :: (trail ++ rest) := by
  obtain ⟨hlead, hopening, hwritable, hclosing, htrail⟩ := h
  simp only [List.append_assoc, List.cons_append] at he
  obtain ⟨rfl, rfl, rfl⟩ := append_cons_inj hd (Keyword.quoteFree_of_leads hlead) hq hopening he
  exact ⟨hlead, hwritable, _, _, hclosing, htrail, rfl⟩

theorem Spelled.exists_lead {reference : Reference} {source : Text} (h : Spelled reference source) :
    ∃ lead opening tail, reference.keyword.Leads lead ∧ isQuote opening = true ∧ reference.Writable ∧
      source = lead ++ opening :: (reference.quoted ++ tail) := by
  obtain ⟨hlead, hopening, hwritable, -, -⟩ := h
  exact ⟨_, _, _, hlead, hopening, hwritable, rfl⟩

theorem Writable.continues {reference : Reference} (h : reference.Writable) {closing : Char} {trail rest : Text}
    (hclosing : isQuote closing = true) (htrail : reference.form.Trails trail) :
    Continues reference.form (reference.quoted ++ closing :: (trail ++ rest)) := by
  obtain ⟨body, hquoted, hbody, hne⟩ := h
  exact ⟨body, closing, trail, rest, by rw [hquoted], hbody, hne, hclosing, htrail⟩

theorem Spelled.not_quoteFree {reference : Reference} {source : Text} (h : Spelled reference source) :
    ¬ QuoteFree source := by
  intro hfree
  obtain ⟨-, hopening, -, -, -⟩ := h
  have hquote := hfree _ (List.mem_append_right _ List.mem_cons_self)
  rw [hopening] at hquote
  cases hquote

/-- Where a spelling opens at a quote, a reference of its form opens. -/
theorem Spelled.not_noSite {reference : Reference} {source rest a d u : Text} {q : Char}
    (h : Spelled reference source) (ha : QuoteFree a) (hd : d <:+ a) (hq : isQuote q = true)
    (he : d ++ q :: u = source ++ rest) : ¬ NoSite reference.form a u := by
  intro hno
  obtain ⟨hlead, hwritable, closing, trail, hclosing, htrail, rfl⟩ := h.at_quote (quoteFree_of_suffix hd ha) hq he
  exact hno d hd (leads_form hlead) (hwritable.continues hclosing htrail)

theorem hit?_eq_none_of_quoteFree {form : Form} {previous : Option Char} {text : Text} (h : QuoteFree text) :
    hit? form previous text = none := by
  refine Option.eq_none_iff_forall_ne_some.mpr fun hit hhit => ?_
  obtain ⟨-, hspelled, -, rfl⟩ := hit?_eq_some_iff.mp hhit
  exact hspelled.not_quoteFree (quoteFree_append.mp h).1

theorem hit?_eq_none_of_noSite {form : Form} {previous : Option Char} {a d u : Text} {q : Char} (ha : QuoteFree a)
    (hd : d <:+ a) (hq : isQuote q = true) (hno : NoSite form a u) : hit? form previous (d ++ q :: u) = none := by
  refine Option.eq_none_iff_forall_ne_some.mpr fun hit hhit => ?_
  obtain ⟨rfl, hspelled, -, he⟩ := hit?_eq_some_iff.mp hhit
  exact hspelled.not_noSite ha hd hq he hno

/-! ### What a hit starts with -/

/-- A lead starts with the first letter of `load`, `preload` or `path`. -/
theorem Keyword.head_of_leads {keyword : Keyword} {lead : Text} (h : keyword.Leads lead) :
    ∃ c lead', lead = c :: lead' ∧ (c = 'l' ∨ c = 'p') := by
  cases keyword with
  | call callee =>
    obtain ⟨inner, -, rfl⟩ := h
    cases callee
    · exact ⟨'l', _, rfl, Or.inl rfl⟩
    · exact ⟨'p', _, rfl, Or.inr rfl⟩
  | path =>
    cases h
    exact ⟨'p', _, rfl, Or.inr rfl⟩

theorem Spelled.head {reference : Reference} {source : Text} (h : Spelled reference source) :
    ∃ c source', source = c :: source' ∧ (c = 'l' ∨ c = 'p') := by
  obtain ⟨hlead, -, -, -, -⟩ := h
  obtain ⟨c, lead', rfl, hc⟩ := Keyword.head_of_leads hlead
  exact ⟨c, _, rfl, hc⟩

theorem hit?_eq_none_of_head {form : Form} {previous : Option Char} {c : Char} {text : Text} (hl : c ≠ 'l')
    (hp : c ≠ 'p') : hit? form previous (c :: text) = none := by
  refine Option.eq_none_iff_forall_ne_some.mpr fun hit hhit => ?_
  obtain ⟨-, hspelled, -, he⟩ := hit?_eq_some_iff.mp hhit
  obtain ⟨d, source', hs, hd⟩ := hspelled.head
  rw [hs] at he
  obtain ⟨rfl, -⟩ := List.cons.inj he
  exact hd.elim hl hp

/-! ### Ends of leads, paths and trails -/

theorem getLast?_cons_or (c : Char) (a : Text) (previous : Option Char) :
    (c :: a).getLast?.or previous = a.getLast?.or (some c) := by
  rw [List.getLast?_cons]
  cases a.getLast? <;> rfl

theorem Keyword.getLast?_of_leads_call {callee : Callee} {lead : Text} (h : (call callee).Leads lead) :
    ∃ c, lead.getLast? = some c ∧ (c = '(' ∨ Text.isBlank c = true) := by
  obtain ⟨inner, hinner, rfl⟩ := h
  rw [List.getLast?_append, List.getLast?_cons, Option.some_or]
  cases hl : inner.getLast? with
  | none => exact ⟨'(', rfl, Or.inl rfl⟩
  | some c => exact ⟨c, rfl, Or.inr (hinner c (List.mem_of_getLast? hl))⟩

theorem Form.getLast?_of_leads {form : Form} {lead : Text} (h : form.Leads lead) :
    ∃ c, lead.getLast? = some c ∧ c ≠ '/' ∧ c ≠ 'd' ∧ c ≠ 's' := by
  rcases Form.leads_iff.mp h with ⟨-, callee, h⟩ | ⟨-, rfl⟩
  · obtain ⟨c, hc, rfl | hb⟩ := Keyword.getLast?_of_leads_call h
    · exact ⟨_, hc, by decide⟩
    · refine ⟨c, hc, ?_, ?_, ?_⟩ <;> rintro rfl <;> exact absurd hb (by decide)
  · exact ⟨'=', rfl, by decide⟩

theorem getLast?_of_suffix {d a : Text} {c : Char} (h : d <:+ a) (hd : d.getLast? = some c) :
    a.getLast? = some c := by
  obtain ⟨x, rfl⟩ := h
  rw [List.getLast?_append, hd, Option.some_or]

/-- A path with an indexable extension ends in a letter of one, or in a slash. -/
theorem getLast?_of_hasIndexableExtension {path : Text}
    (h : Resource.hasIndexableExtension (Resource.basename path) = true) :
    ∃ c, path.getLast? = some c ∧ (c = '/' ∨ c = 'd' ∨ c = 's') := by
  simp only [Resource.hasIndexableExtension, List.any_eq_true, List.isSuffixOf_iff_suffix] at h
  obtain ⟨extension, hmem, hsuffix⟩ := h
  have hlast : ∃ c, ('.' :: extension).getLast? = some c ∧ (c = 'd' ∨ c = 's') := by
    simp only [Resource.indexable, List.mem_cons, List.not_mem_nil, or_false] at hmem
    rcases hmem with rfl | rfl | rfl
    · exact ⟨'d', rfl, Or.inl rfl⟩
    · exact ⟨'s', rfl, Or.inr rfl⟩
    · exact ⟨'s', rfl, Or.inr rfl⟩
  obtain ⟨c, hc, hcase⟩ := hlast
  have hname := getLast?_of_suffix hsuffix hc
  rw [Resource.basename, List.getLast?_reverse] at hname
  rw [← List.head?_reverse]
  cases hrev : path.reverse with
  | nil =>
    rw [hrev] at hname
    cases hname
  | cons d reversed =>
    rw [hrev] at hname
    by_cases hd : d = '/'
    · exact ⟨d, rfl, Or.inl hd⟩
    · rw [List.dropWhile_cons_of_neg (by simpa using hd), List.takeWhile_cons_of_pos (by simpa using hd)] at hname
      exact ⟨d, rfl, Or.inr (by cases hname; exact hcase)⟩

theorem Continues.head {form : Form} {u : Text} (h : Continues form u) : u.head? = form.mark.head? := by
  obtain ⟨body, closing, trail, rest, rfl, -⟩ := h
  cases form <;> rfl

theorem Writable.head {reference : Reference} (h : reference.Writable) (u : Text) :
    (reference.quoted ++ u).head? = reference.form.mark.head? := by
  obtain ⟨body, hquoted, -, -⟩ := h
  rw [hquoted]
  cases reference <;> rfl

theorem Form.quoteFree_mark (form : Form) : QuoteFree form.mark := by
  cases form <;> decide

theorem Writable.quoteFree {reference : Reference} (h : reference.Writable) : QuoteFree reference.quoted := by
  obtain ⟨body, hquoted, hbody, -⟩ := h
  rw [hquoted]
  exact quoteFree_append.mpr ⟨Form.quoteFree_mark _, hbody⟩

/-- Characters of a trail begin no reference and no path. -/
theorem Form.not_mem_of_trails {form : Form} {trail : Text} (h : form.Trails trail) {c : Char} (hc : c ∈ trail) :
    c ≠ 'l' ∧ c ≠ 'p' ∧ c ≠ 'r' ∧ c ≠ '.' := by
  rcases Form.trails_iff.mp h with ⟨-, outer, houter, rfl⟩ | ⟨-, rfl⟩
  · rcases List.mem_append.mp hc with hc | hc
    · have hb := houter c hc
      refine ⟨?_, ?_, ?_, ?_⟩ <;> rintro rfl <;> exact absurd hb (by decide)
    · rw [List.mem_singleton.mp hc]
      decide
  · cases hc

theorem Form.isWord_getLast?_of_trails {form : Form} {trail : Text} (h : form.Trails trail) :
    trail.getLast?.any Text.isWord = false := by
  rcases Form.trails_iff.mp h with ⟨-, outer, -, rfl⟩ | ⟨-, rfl⟩
  · rw [List.getLast?_concat]
    decide
  · rfl

theorem Spelled.isWord_getLast? {reference : Reference} {source : Text} (h : Spelled reference source) :
    source.getLast?.any Text.isWord = false := by
  obtain @⟨lead, trail, opening, closing, -, -, -, hclosing, htrail⟩ := h
  have hlast := Form.isWord_getLast?_of_trails htrail
  have he : (lead ++ opening :: (reference.quoted ++ closing :: trail)).getLast? = trail.getLast?.or (some closing) := by
    rw [← List.cons_append, ← List.append_assoc, List.getLast?_append, ← getLast?_cons_or closing trail none, Option.or_none]
    simp [List.getLast?_cons]
  rw [he]
  cases hl : trail.getLast? with
  | none => simp [isWord_of_isQuote hclosing]
  | some c =>
    rw [hl] at hlast
    exact hlast

/-! ### Where no other reference opens -/

theorem append_cons_inj_right {p : Char → Bool} {a b u v : Text} {c d : Char} (ha : ∀ x ∈ a, p x = false)
    (hb : ∀ x ∈ b, p x = false) (hc : p c = true) (hd : p d = true) (h : u ++ c :: a = v ++ d :: b) :
    u = v ∧ c = d ∧ a = b := by
  have hrev := congrArg List.reverse h
  simp only [List.reverse_append, List.reverse_cons, List.append_assoc, List.singleton_append] at hrev
  obtain ⟨hab, hcd, huv⟩ := append_cons_inj (fun x hx => ha x (List.mem_reverse.mp hx))
    (fun x hx => hb x (List.mem_reverse.mp hx)) hc hd hrev
  exact ⟨List.reverse_inj.mp huv, hcd, List.reverse_inj.mp hab⟩

/-- The only lead with a shorter one at its end is that of `preload`. -/
theorem Keyword.leads_append {keyword keyword' : Keyword} {d lead : Text} (h : keyword.Leads lead)
    (h' : keyword'.Leads (d ++ lead)) (hd : d ≠ []) :
    d = "pre".toList ∧ keyword = call .load ∧ keyword' = call .preload := by
  cases keyword with
  | call callee =>
    obtain ⟨inner, hinner, rfl⟩ := h
    cases keyword' with
    | call callee' =>
      obtain ⟨inner', hinner', he⟩ := h'
      rw [← List.append_assoc] at he
      obtain ⟨he, -, -⟩ := append_cons_inj_right (p := (!Text.isBlank ·)) (fun c hc => by simp [hinner c hc])
        (fun c hc => by simp [hinner' c hc]) (by decide) (by decide) he
      have hlen := congrArg List.length he
      rw [List.length_append] at hlen
      have hpos := List.length_pos_iff.mpr hd
      cases callee <;> cases callee' <;> simp only [name_load, name_preload, List.length_cons, List.length_nil] at hlen
      · omega
      · have hpre : d ++ Callee.load.name = "pre".toList ++ Callee.load.name := he
        exact ⟨List.append_cancel_right hpre, rfl, rfl⟩
      · omega
      · omega
    | path =>
      have hmem : '(' ∈ attributeMark := by
        rw [← h']
        simp
      exact absurd hmem (by decide)
  | path =>
    cases h
    cases keyword' with
    | call callee =>
      obtain ⟨inner, hinner, he⟩ := h'
      have hmem : '=' ∈ callee.name ++ '(' :: inner := by
        rw [← he]
        simp [attributeMark]
      rcases List.mem_append.mp hmem with hmem | hmem
      · cases callee <;> exact absurd hmem (by decide)
      · rcases List.mem_cons.mp hmem with hmem | hmem
        · exact absurd hmem (by decide)
        · exact absurd (hinner _ hmem) (by decide)
    | path => exact absurd (List.append_left_eq_self.mp h') hd

/-- A lead of a call ends in a parenthesis or a blank, the lead of an attribute in an equals sign. -/
theorem not_leads_call_and_path {callee : Callee} {a lead lead' : Text} (h : (Keyword.call callee).Leads lead)
    (hs : lead <:+ a) (h' : Keyword.path.Leads lead') (hs' : lead' <:+ a) : False := by
  obtain ⟨c, hc, hcase⟩ := Keyword.getLast?_of_leads_call h
  cases h'
  cases (getLast?_of_suffix hs hc).symm.trans (getLast?_of_suffix hs' rfl)
  rcases hcase with h | h <;> exact absurd h (by decide)

theorem noSite_of_attributeMark {form : Form} {a u : Text} (ha : attributeMark <:+ a) (hne : form ≠ .extResource) :
    NoSite form a u := by
  intro lead hsuffix hlead _
  rcases Form.leads_iff.mp hlead with ⟨-, callee, hcall⟩ | ⟨he, -⟩
  · exact not_leads_call_and_path hcall hsuffix rfl ha
  · exact hne he

/-- No reference of another form opens where a reference opens. -/
theorem noSite_lead {reference : Reference} {form : Form} {front lead u : Text} (hne : reference.form ≠ form)
    (hlead : reference.keyword.Leads lead) (hwritable : reference.Writable) :
    NoSite form (front ++ lead) (reference.quoted ++ u) := by
  intro lead' hsuffix hlead' hcontinues
  have hhead := hcontinues.head.symm.trans (hwritable.head u)
  have hself : lead <:+ front ++ lead := List.suffix_append _ _
  cases reference with
  | load callee path =>
    cases form with
    | load => exact hne rfl
    | relativeLoad => exact absurd (show some '.' = some 'r' from hhead) (by decide)
    | extResource => exact not_leads_call_and_path hlead hself hlead' hsuffix
  | relativeLoad callee path =>
    cases form with
    | load => exact absurd (show some 'r' = some '.' from hhead) (by decide)
    | relativeLoad => exact hne rfl
    | extResource => exact not_leads_call_and_path hlead hself hlead' hsuffix
  | extResource path =>
    cases form with
    | load => exact not_leads_call_and_path hlead'.choose_spec hsuffix hlead hself
    | relativeLoad => exact not_leads_call_and_path hlead'.choose_spec hsuffix hlead hself
    | extResource => exact hne rfl

/-- The name of a path that ends in a lead is not looked up. -/
theorem considers_eq_false {form : Form} {lead path : Text} (hlead : form.Leads lead) (hs : lead <:+ path) :
    Index.considers (.extResource path) = false := by
  cases hconsidered : Index.considers (.extResource path) with
  | false => rfl
  | true =>
    obtain ⟨c, hc, hcase⟩ := getLast?_of_hasIndexableExtension hconsidered
    obtain ⟨d, hd, hslash, hnd, hns⟩ := Form.getLast?_of_leads hlead
    cases hc.symm.trans (getLast?_of_suffix hs hd)
    rcases hcase with h | h | h
    · exact absurd h hslash
    · exact absurd h hnd
    · exact absurd h hns

/-- No reference opens at the closing quote of a call, or of an attribute whose name is looked up. -/
theorem noSite_quoted {reference : Reference} {form : Form} {trail u : Text}
    (hconsidered : Index.considers reference = true) (htrail : reference.form.Trails trail) :
    NoSite form reference.quoted (trail ++ u) := by
  intro lead hsuffix hlead hcontinues
  rcases Form.trails_iff.mp htrail with ⟨-, outer, -, rfl⟩ | ⟨he, -⟩
  · -- The path that follows would have to start in the trail.
    obtain ⟨c, trail, he⟩ := List.exists_cons_of_ne_nil (List.concat_ne_nil ')' outer)
    obtain ⟨-, -, hr, hd⟩ := Form.not_mem_of_trails htrail (he ▸ List.mem_cons_self)
    rw [he] at hcontinues
    have hc : c = 'r' ∨ c = '.' := by
      cases form with
      | load => exact Or.inl (Option.some.inj hcontinues.head)
      | relativeLoad => exact Or.inr (Option.some.inj hcontinues.head)
      | extResource => exact Or.inl (Option.some.inj hcontinues.head)
    exact hc.elim hr hd
  · cases reference with
    | load => cases he
    | relativeLoad => cases he
    | extResource path =>
      have hignored : Index.considers (.extResource path) = false := considers_eq_false hlead hsuffix
      rw [hignored] at hconsidered
      cases hconsidered

end Reference
end Relink

import Relink.Proofs.Identifier
import Relink.Proofs.Layout.Respelling

/-! # The calls that a layout has

A layout has exactly the calls that are recognised in its text. A call can be read at other places too: inside a call of
`preload` there is one of `load`. Wherever it is read, its path is that of a call which the layout has. -/

namespace Relink
open Reference Segment

namespace Reference
variable {reference reference' : Reference} {callee : Callee} {source source' front front' rest rest' lead lead' : Text}

theorem exists_callee (h : reference.form ≠ .extResource) : ∃ callee, reference.keyword = .call callee := by
  cases reference with
  | load callee => exact ⟨callee, rfl⟩
  | relativeLoad callee => exact ⟨callee, rfl⟩
  | extResource => exact absurd rfl h

theorem path_eq_of_quoted (hform : reference.form = reference'.form) (h : reference.quoted = reference'.quoted) :
    reference.path = reference'.path := by
  cases reference with
  | load =>
    cases reference' with
    | load => exact h
    | _ => cases hform
  | relativeLoad =>
    cases reference' with
    | relativeLoad => exact List.append_cancel_left (show relativeMark ++ _ = relativeMark ++ _ from h)
    | _ => cases hform
  | extResource =>
    cases reference' with
    | extResource => exact h
    | _ => cases hform

theorem eq_of_quoted (hkeyword : reference.keyword = reference'.keyword) (hform : reference.form = reference'.form)
    (h : reference.quoted = reference'.quoted) : reference = reference' := by
  have hpath := path_eq_of_quoted hform h
  cases reference <;> cases reference' <;> cases hkeyword <;> cases hform <;> cases hpath <;> rfl

theorem Keyword.eq_of_leads {keyword keyword' : Keyword} (h : keyword.Leads lead) (h' : keyword'.Leads lead) :
    keyword = keyword' := by
  cases keyword with
  | path =>
    cases keyword' with
    | path => rfl
    | call callee => exact (not_leads_call_and_path h' (List.suffix_refl _) h (List.suffix_refl _)).elim
  | call callee =>
    cases keyword' with
    | path => exact (not_leads_call_and_path h (List.suffix_refl _) h' (List.suffix_refl _)).elim
    | call callee' =>
      obtain ⟨inner, -, rfl⟩ := h
      obtain ⟨inner', -, he⟩ := h'
      have hname : ∀ callee : Callee, ∀ c ∈ callee.name, decide (c = '(') = false := by
        intro callee
        cases callee <;> simp
      obtain ⟨he, -, -⟩ := append_cons_inj (hname _) (hname _) (by decide) (by decide) he
      cases callee <;> cases callee' <;> first | rfl | cases he

/-- Two leads that end at one quote and are recognised there are one. -/
theorem Keyword.eq_of_begins {keyword keyword' : Keyword} (hbegins : keyword.Begins front)
    (hbegins' : keyword'.Begins front') (hlead : keyword.Leads lead) (hlead' : keyword'.Leads lead')
    (he : front ++ lead = front' ++ lead') : front = front' ∧ lead = lead' := by
  rcases List.append_eq_append_iff.mp he with ⟨d, rfl, rfl⟩ | ⟨d, rfl, rfl⟩
  · by_cases hd : d = []
    · simp [hd]
    · -- The longer one is that of `preload`, so `load` does not begin there.
      obtain ⟨rfl, rfl, rfl⟩ := leads_append hlead' hlead hd
      have hword := hbegins' front rfl
      rw [show front.getLast?.any Text.isWord = false from hbegins] at hword
      cases hword
  · by_cases hd : d = []
    · simp [hd]
    · obtain ⟨rfl, rfl, rfl⟩ := leads_append hlead hlead' hd
      have hword := hbegins front' rfl
      rw [show front'.getLast?.any Text.isWord = false from hbegins'] at hword
      cases hword

theorem Form.trails_inj {form : Form} {trail trail' : Text} (h : form.Trails trail) (h' : form.Trails trail')
    (he : trail ++ rest = trail' ++ rest') : trail = trail' ∧ rest = rest' := by
  rcases trails_iff.mp h with ⟨hcall, outer, houter, rfl⟩ | ⟨hform, rfl⟩ <;>
    rcases trails_iff.mp h' with ⟨hcall', outer', houter', rfl⟩ | ⟨hform', rfl⟩
  · have hblank : ∀ {a : Text}, Blank a → ∀ c ∈ a, decide (c = ')') = false := by
      intro a ha c hc
      refine decide_eq_false ?_
      rintro rfl
      exact absurd (ha _ hc) (by decide)
    simp only [List.append_assoc, List.singleton_append] at he
    obtain ⟨rfl, -, rfl⟩ := append_cons_inj (hblank houter) (hblank houter') (by decide) (by decide) he
    exact ⟨rfl, rfl⟩
  · exact absurd hform' hcall
  · exact absurd hform hcall'
  · exact ⟨rfl, he⟩

/-- At the first quote of a text at most one reference of a form is recognised. -/
theorem Spelled.unique (hspelled : Spelled reference source) (hspelled' : Spelled reference' source')
    (hform : reference.form = reference'.form) (hbegins : reference.keyword.Begins front)
    (hbegins' : reference'.keyword.Begins front') (hfront : QuoteFree front) (hfront' : QuoteFree front')
    (he : front ++ (source ++ rest) = front' ++ (source' ++ rest')) :
    front = front' ∧ reference = reference' ∧ source = source' ∧ rest = rest' := by
  obtain @⟨lead, trail, opening, closing, hlead, hopening, hwritable, hclosing, htrail⟩ := hspelled
  obtain @⟨lead', trail', opening', closing', hlead', hopening', hwritable', hclosing', htrail'⟩ := hspelled'
  have hopen : (front ++ lead) ++ opening :: (reference.quoted ++ closing :: (trail ++ rest)) =
      (front' ++ lead') ++ opening' :: (reference'.quoted ++ closing' :: (trail' ++ rest')) := by
    simpa using he
  obtain ⟨hleads, rfl, hclose⟩ := append_cons_inj
    (quoteFree_append.mpr ⟨hfront, Keyword.quoteFree_of_leads hlead⟩)
    (quoteFree_append.mpr ⟨hfront', Keyword.quoteFree_of_leads hlead'⟩) hopening hopening' hopen
  obtain ⟨hquoted, rfl, htrails⟩ :=
    append_cons_inj hwritable.quoteFree hwritable'.quoteFree hclosing hclosing' hclose
  obtain ⟨rfl, rfl⟩ := Keyword.eq_of_begins hbegins hbegins' hlead hlead' hleads
  obtain ⟨rfl, rfl⟩ := Form.trails_inj htrail (hform ▸ htrail') htrails
  obtain rfl := eq_of_quoted (Keyword.eq_of_leads hlead hlead') hform hquoted
  exact ⟨rfl, rfl, rfl, rfl⟩

/-- A quote stands behind a text or in it. -/
theorem append_quote {a u y : Text} {q : Char} (h : a ++ q :: u = front ++ y) :
    (∃ d, a = front ++ d ∧ y = d ++ q :: u) ∨ ∃ front', front = a ++ q :: front' ∧ u = front' ++ y := by
  rcases List.append_eq_append_iff.mp h with ⟨d, rfl, hd⟩ | ⟨d, rfl, rfl⟩
  · cases d with
    | nil => exact Or.inl ⟨[], by simp, hd.symm⟩
    | cons c d =>
      obtain ⟨rfl, rfl⟩ := List.cons.inj hd
      exact Or.inr ⟨d, rfl, rfl⟩
  · exact Or.inl ⟨d, rfl, rfl⟩

/-- What is recognised in a text is the reference at the text's first quote, or it stands behind that one. -/
theorem Spelled.eq_or_after (hspelled : Spelled reference source) (hspelled' : Spelled reference' source')
    (hconsidered : Index.considers reference = true) (hfront : QuoteFree front)
    (hbegins : reference.keyword.Begins front) (hbegins' : reference'.keyword.Begins front')
    (he : front ++ (source ++ rest) = front' ++ (source' ++ rest')) :
    front = front' ∧ reference = reference' ∧ source = source' ∨
      ∃ behind, front' = front ++ (source ++ behind) ∧ rest = behind ++ (source' ++ rest') := by
  have hspelled₀ := hspelled
  obtain @⟨lead, trail, opening, closing, hlead, hopening, hwritable, hclosing, htrail⟩ := hspelled
  have hfree : QuoteFree (front ++ lead) := quoteFree_append.mpr ⟨hfront, Keyword.quoteFree_of_leads hlead⟩
  have hopen : (front ++ lead) ++ opening :: (reference.quoted ++ closing :: (trail ++ rest)) =
      front' ++ (source' ++ rest') := by
    simpa using he
  rcases append_quote hopen with ⟨d, hd, hsource⟩ | ⟨inside, rfl, hinside⟩
  · -- Both open at the same quote.
    have hsuffix : d <:+ front ++ lead := ⟨front', hd.symm⟩
    by_cases hform : reference.form = reference'.form
    · have hfront' : QuoteFree front' := by
        rw [hd] at hfree
        exact (quoteFree_append.mp hfree).1
      obtain ⟨hfronts, hreferences, hsources, -⟩ :=
        hspelled₀.unique hspelled' hform hbegins hbegins' hfront hfront' he
      exact Or.inl ⟨hfronts, hreferences, hsources⟩
    · have hsite := hspelled'.not_noSite hfree hsuffix hopening hsource.symm
      exact absurd (noSite_lead hform hlead hwritable) hsite
  · rcases append_quote hinside with ⟨d, hd, hsource⟩ | ⟨behind, rfl, hbehind⟩
    · have hsite := hspelled'.not_noSite hwritable.quoteFree ⟨inside, hd.symm⟩ hclosing hsource.symm
      exact absurd (noSite_quoted hconsidered htrail) hsite
    · rcases List.append_eq_append_iff.mp hbehind with ⟨d, rfl, rfl⟩ | ⟨d, rfl, hsource⟩
      · exact Or.inr ⟨d, by simp, rfl⟩
      · cases d with
        | nil => exact Or.inr ⟨[], by simp, hsource.symm⟩
        | cons c d =>
          obtain ⟨c', source', rfl, hc⟩ := hspelled'.head
          obtain ⟨rfl, -⟩ := List.cons.inj hsource
          obtain ⟨hl, hp, -, -⟩ := Form.not_mem_of_trails htrail (List.mem_append_right _ List.mem_cons_self)
          exact (hc.elim hl hp).elim

/-- A call after a text is recognised there, or a call of the other function with the same path is. -/
theorem Spelled.exists_recognised (hspelled : Spelled reference source) (hcall : reference.keyword = .call callee)
    (front : Text) : ∃ front' callee' reference' source', front' ++ source' = front ++ source ∧
      front' ++ callee'.name = front ++ callee.name ∧ reference'.keyword = .call callee' ∧
      reference'.form = reference.form ∧ reference'.quoted = reference.quoted ∧ Spelled reference' source' ∧
      (Keyword.call callee').Begins front' ∧ Index.considers reference' = true := by
  obtain @⟨lead, trail, opening, closing, hlead, hopening, hwritable, hclosing, htrail⟩ := hspelled
  have hnotPath : reference.form ≠ .extResource := by
    intro hform
    rw [form_eq_extResource_iff, hcall] at hform
    cases hform
  rw [hcall] at hlead
  obtain ⟨front', callee', lead', he, hlead', hbegins⟩ := Layout.exists_begins front hlead
  obtain ⟨body, hquoted, hbody, hne⟩ := hwritable
  obtain ⟨reference', hform, hcall', hquoted', hwritable', hconsidered⟩ :=
    Layout.exists_call hnotPath callee' hbody hne
  have hsame : reference'.quoted = reference.quoted := hquoted'.trans hquoted.symm
  refine ⟨front', callee', reference', lead' ++ opening :: (reference'.quoted ++ closing :: trail), ?_, ?_, hcall',
    hform, hsame, .intro (hcall' ▸ hlead') hopening hwritable' hclosing (hform ▸ htrail), hbegins, hconsidered⟩
  · rw [← List.append_assoc, ← he, hsame, List.append_assoc]
  · obtain ⟨inner, hinner, rfl⟩ := hlead
    obtain ⟨inner', hinner', rfl⟩ := hlead'
    rw [← List.append_assoc, ← List.append_assoc] at he
    obtain ⟨hname, -, -⟩ := append_cons_inj_right (p := (!Text.isBlank ·)) (fun c hc => by simp [hinner c hc])
      (fun c hc => by simp [hinner' c hc]) (by decide) (by decide) he
    exact hname.symm

end Reference

namespace Layout
variable {busy : Bool} {segments before after : List Segment} {reference : Reference} {source front rest : Text}

theorem begins_quote {keyword : Keyword} {a front : Text} {q : Char} (hq : isQuote q = true) :
    keyword.Begins (a ++ q :: front) ↔ keyword.Begins front := by
  rw [List.append_cons]
  exact begins_append (by simp [isWord_of_isQuote hq])

theorem begins_spelled {keyword : Keyword} {a front : Text} (hspelled : Spelled reference source) :
    keyword.Begins (a ++ (source ++ front)) ↔ keyword.Begins front := by
  obtain ⟨c, source', rfl, -⟩ := hspelled.head
  rw [← List.append_assoc]
  refine begins_append ?_
  rw [List.getLast?_append_of_ne_nil _ (List.cons_ne_nil _ _)]
  exact hspelled.isWord_getLast?

/-- A reference among segments stands at the first one that is no character, or after it. -/
theorem split_plains {a : Text} {segment : Segment}
    (he : plains a ++ segment :: segments = before ++ .found reference source :: after) :
    before = plains a ∧ segment = .found reference source ∨
      ∃ before', before = plains a ++ segment :: before' ∧ segments = before' ++ .found reference source :: after := by
  rcases List.append_eq_append_iff.mp he with ⟨d, rfl, hd⟩ | ⟨d, hplains, hd⟩
  · cases d with
    | nil => exact Or.inl ⟨List.append_nil _, (List.cons.inj hd).1⟩
    | cons c d =>
      obtain ⟨rfl, rfl⟩ := List.cons.inj hd
      exact Or.inr ⟨d, rfl, rfl⟩
  · cases d with
    | nil => exact Or.inl ⟨by rw [hplains, List.append_nil], (List.cons.inj hd).1.symm⟩
    | cons c d =>
      obtain ⟨rfl, -⟩ := List.cons.inj hd
      have hmem : .found reference source ∈ plains a := by
        rw [hplains]
        exact List.mem_append_right _ List.mem_cons_self
      exact absurd hmem (found_notMem_plains _ _ _)

/-- What a layout has is recognised where it stands. -/
theorem begins_of_mem (h : Layout busy segments) (he : segments = before ++ .found reference source :: after) :
    reference.keyword.Begins (text before) := by
  induction h generalizing before with
  | last ha =>
    have hmem : .found reference source ∈ before ++ .found reference source :: after :=
      List.mem_append_right _ List.mem_cons_self
    rw [← he] at hmem
    exact absurd hmem (found_notMem_plains _ _ _)
  | quote ha hq hno hrest ih =>
    rcases split_plains he with ⟨-, hplain⟩ | ⟨before', rfl, hbefore⟩
    · cases hplain
    · rw [text_quote, begins_quote hq]
      exact ih hbefore
  | ignored ha hq hmark hignored hrest ih =>
    rcases split_plains he with ⟨-, hplain⟩ | ⟨before', rfl, hbefore⟩
    · cases hplain
    · rw [text_quote, begins_quote hq]
      exact ih hbefore
  | found hfront hbegins hspelled hconsidered hidle hrest ih =>
    rcases split_plains he with ⟨rfl, hfound⟩ | ⟨before', rfl, hbefore⟩
    · cases hfound
      rw [text_plains]
      exact hbegins
    · rw [text_found, begins_spelled hspelled]
      exact ih hbefore

/-- A layout has a call that is recognised in its text. -/
theorem exists_found (h : Layout busy segments) (hform : reference.form ≠ .extResource)
    (hspelled : Spelled reference source) (hbegins : reference.keyword.Begins front)
    (he : text segments = front ++ (source ++ rest)) :
    ∃ before after, segments = before ++ .found reference source :: after ∧ text before = front := by
  induction h generalizing front with
  | last ha =>
    rw [text_plains] at he
    rw [he, quoteFree_append, quoteFree_append] at ha
    exact absurd ha.2.1 hspelled.not_quoteFree
  | @quote _ a q _ ha hq hno hrest ih =>
    rw [text_quote] at he
    rcases append_quote he with ⟨d, rfl, hd⟩ | ⟨front', rfl, hu⟩
    · exact absurd (hno _ fun _ => hform) (hspelled.not_noSite ha (List.suffix_append _ _) hq hd.symm)
    · obtain ⟨before, after, rfl, rfl⟩ := ih ((begins_quote hq).mp hbegins) hu
      exact ⟨plains a ++ plain q :: before, after, by simp, text_quote a q before⟩
  | @ignored a q _ ha hq hmark hignored hrest ih =>
    rw [text_quote] at he
    rcases append_quote he with ⟨d, rfl, hd⟩ | ⟨front', rfl, hu⟩
    · have hsite := hspelled.not_noSite ha (List.suffix_append _ _) hq hd.symm
      exact absurd (noSite_of_attributeMark hmark hform) hsite
    · obtain ⟨before, after, rfl, rfl⟩ := ih ((begins_quote hq).mp hbegins) hu
      exact ⟨plains a ++ plain q :: before, after, by simp, text_quote a q before⟩
  | @found _ front' reference' source' _ hfront' hbegins' hspelled' hconsidered' _ hrest ih =>
    rw [text_found] at he
    rcases hspelled'.eq_or_after hspelled hconsidered' hfront' hbegins' hbegins he with
      ⟨rfl, rfl, rfl⟩ | ⟨behind, rfl, hu⟩
    · exact ⟨_, _, rfl, text_plains _⟩
    · obtain ⟨before, after, rfl, rfl⟩ := ih ((begins_spelled hspelled').mp hbegins) hu
      exact ⟨plains front' ++ .found reference' source' :: before, after, by simp, text_found front' reference' source' before⟩

/-- A call that is spelled anywhere in a text has the path of one in the layout. -/
theorem exists_of_hit? (h : Layout busy segments) {form : Form} (hform : form ≠ .extResource)
    {previous : Option Char} {y : Text} (hy : y <:+ text segments) {hit : Hit} (hhit : hit? form previous y = some hit) :
    ∃ reference source, .found reference source ∈ segments ∧ reference.form = form ∧
      reference.path = hit.reference.path := by
  obtain ⟨rfl, hspelled, -, rfl⟩ := hit?_eq_some_iff.mp hhit
  obtain ⟨x, hx⟩ := hy
  obtain ⟨callee, hcall⟩ := exists_callee hform
  obtain ⟨front, callee', reference, source, hsource, -, hcall', hform', hquoted, hspelled', hbegins, -⟩ :=
    hspelled.exists_recognised hcall x
  have htext : text segments = front ++ (source ++ hit.rest) := by
    rw [← hx, ← List.append_assoc, ← hsource, List.append_assoc]
  obtain ⟨before, after, rfl, -⟩ := h.exists_found (hform' ▸ hform) hspelled' (hcall' ▸ hbegins) htext
  exact ⟨reference, source, List.mem_append_right _ List.mem_cons_self, hform', path_eq_of_quoted hform' hquoted⟩

end Layout
end Relink

import Relink.Proofs.Layout.Hit
import Relink.Proofs.Layout.Repair

/-! # Layouts around a reference

The layouts of two texts make one of the texts put together with a reference between them. A call is found
there whatever stands around it; the letters `pre` before a call of `load` may only make it one of
`preload`. An attribute is found unless one before it, without a closing quote of its own, takes the opening
quote; then its characters are copied. -/

namespace Relink
open Reference Segment

/-! ### Segments that come to the same -/

/-- Lists of segments that every repair of a form takes alike. -/
structure Alike (a b : List Segment) : Prop where
  text : Segment.text a = Segment.text b
  redirected : ∀ (index : Index) (form : Form),
    Segment.text (a.map (index.redirectForm form)) = Segment.text (b.map (index.redirectForm form))
  changes : ∀ (index : Index) (form : Form),
    a.filterMap (index.changeForm? form) = b.filterMap (index.changeForm? form)

namespace Alike
variable {a b c d : List Segment}

theorem refl (a : List Segment) : Alike a a := ⟨rfl, fun _ _ => rfl, fun _ _ => rfl⟩

theorem append (h : Alike a b) (h' : Alike c d) : Alike (a ++ c) (b ++ d) where
  text := by rw [text_append, text_append, h.text, h'.text]
  redirected index form := by
    rw [List.map_append, List.map_append, text_append, text_append, h.redirected, h'.redirected]
  changes index form := by rw [List.filterMap_append, List.filterMap_append, h.changes, h'.changes]

end Alike

namespace Index
variable {index : Index} {reference reference' : Reference}

theorem map_redirectForm_plains (form : Form) (a : Text) : (plains a).map (index.redirectForm form) = plains a := by
  unfold plains
  rw [List.map_map]
  rfl

theorem filterMap_changeForm?_plains (form : Form) (a : Text) : (plains a).filterMap (index.changeForm? form) = [] := by
  rw [List.filterMap_eq_nil_iff]
  intro segment hmem
  obtain ⟨c, -, rfl⟩ := List.mem_map.mp hmem
  rfl

/-- The function that is called has no influence on what becomes of a reference. -/
theorem verdict_congr (hform : reference.form = reference'.form) (hpath : reference.path = reference'.path) :
    index.verdict reference = index.verdict reference' := by
  cases reference <;> cases reference' <;> cases hform <;> cases hpath <;> rfl

end Index

namespace Reference
variable {reference reference' : Reference}

theorem kind_congr (hform : reference.form = reference'.form) : reference.kind = reference'.kind := by
  cases reference <;> cases reference' <;> cases hform <;> rfl

theorem redirected_call {callee : Callee} (h : reference.keyword = .call callee) (target : Text) :
    reference.redirected target = callee.name ++ '(' :: '\x22' :: (target ++ ['\x22', ')']) := by
  have hcall : callee.name ++ ['(', '\x22'] ++ target ++ ['\x22', ')'] =
      callee.name ++ '(' :: '\x22' :: (target ++ ['\x22', ')']) := by
    rw [List.append_assoc, List.append_assoc]
    rfl
  cases reference with
  | load =>
    cases h
    exact hcall
  | relativeLoad =>
    cases h
    exact hcall
  | extResource => cases h

end Reference

/-- A call is taken alike whether the letters before `load` count to the function's name or not. -/
theorem alike_call {reference reference' : Reference} {callee callee' : Callee} {a front source source' : Text}
    (hform : reference'.form = reference.form) (hpath : reference'.path = reference.path)
    (hcall : reference.keyword = .call callee) (hcall' : reference'.keyword = .call callee')
    (hname : front ++ callee'.name = a ++ callee.name) (hsource : front ++ source' = a ++ source) :
    Alike (plains front ++ [found reference' source']) (plains a ++ [found reference source]) where
  text := by
    simp only [text_append, text_plains, text_cons, Segment.source]
    rw [← List.append_assoc, hsource, List.append_assoc]
  redirected index form := by
    have hredirected : ∀ target, front ++ reference'.redirected target = a ++ reference.redirected target := by
      intro target
      rw [redirected_call hcall, redirected_call hcall', ← List.append_assoc, hname, List.append_assoc]
    have hverdict : index.verdict reference' = index.verdict reference := Index.verdict_congr hform hpath
    simp only [List.map_append, List.map_cons, List.map_nil, text_append, Index.map_redirectForm_plains, text_plains,
      text_cons, ← List.append_assoc]
    refine congrArg (· ++ Segment.text []) ?_
    simp only [Index.redirectForm, Index.redirect, hverdict, hform]
    split
    · split
      · exact hredirected _
      · exact hsource
    · exact hsource
  changes index form := by
    have hverdict : index.verdict reference' = index.verdict reference := Index.verdict_congr hform hpath
    simp only [List.filterMap_append, Index.filterMap_changeForm?_plains, List.filterMap_cons, List.filterMap_nil,
      Index.changeForm?_found, hverdict, hform, hpath, kind_congr hform]

namespace Layout
variable {reference : Reference} {source : Text}

/-! ### A reference after a text without quotes -/

/-- What is found of a reference in a text: the reference, or only its characters when it is an attribute. -/
def Middle (reference : Reference) (source : Text) (middle : List Segment) : Prop :=
  middle = [.found reference source] ∨ reference.form = .extResource ∧ middle = plains source

theorem Middle.text {middle : List Segment} (h : Middle reference source middle) : Segment.text middle = source := by
  rcases h with rfl | ⟨-, rfl⟩
  · rw [text_cons, Segment.text, List.flatMap_nil, List.append_nil, Segment.source]
  · exact text_plains source

/-- After a text that an open attribute reaches into, an attribute is copied. -/
theorem swallowed {a : Text} {segments : List Segment} (ha : QuoteFree a) (hspelled : Spelled reference source)
    (hconsidered : Index.considers reference = true) (hform : reference.form = .extResource)
    (h : Layout false segments) : Layout true (plains a ++ (plains source ++ segments)) := by
  obtain @⟨lead, trail, opening, closing, hlead, hopening, hwritable, hclosing, htrail⟩ := hspelled
  rw [form_eq_extResource_iff.mp hform] at hlead
  cases hlead
  have hnil : trail = [] := by
    rw [hform] at htrail
    exact htrail
  subst hnil
  have hno : ∀ form, NoSite form reference.quoted (Segment.text segments) := fun form =>
    @noSite_quoted reference form [] (Segment.text segments) hconsidered htrail
  have hrest : Layout false (plains reference.quoted ++ plain closing :: segments) :=
    .quote hwritable.quoteFree hclosing (fun form _ => hno form) h
  have hmark : QuoteFree (a ++ attributeMark) := quoteFree_append.mpr ⟨ha, by decide⟩
  have hall : Layout true (plains (a ++ attributeMark) ++ plain opening ::
      (plains reference.quoted ++ plain closing :: segments)) :=
    .quote hmark hopening (fun form hidle => noSite_of_attributeMark (List.suffix_append _ _) (hidle rfl)) hrest
  simpa [plains_cons] using hall

theorem exists_join_last {busy : Bool} {a : Text} {segments : List Segment} (ha : QuoteFree a)
    (hspelled : Spelled reference source) (hconsidered : Index.considers reference = true)
    (h : Layout false segments) : ∃ joined middle, Layout busy joined ∧ Middle reference source middle ∧
      Alike joined (plains a ++ (middle ++ segments)) := by
  cases hkeyword : reference.keyword with
  | path =>
    have hform := form_eq_extResource_iff.mpr hkeyword
    cases busy with
    | true =>
      exact ⟨_, plains source, swallowed ha hspelled hconsidered hform h, Or.inr ⟨hform, rfl⟩, .refl _⟩
    | false =>
      have hbegins : reference.keyword.Begins a := by
        rw [hkeyword]
        trivial
      exact ⟨_, _, .found ha hbegins hspelled hconsidered nofun h, Or.inl rfl, .refl _⟩
  | call callee =>
    -- The letters before the call decide which function is called.
    obtain ⟨front, callee', reference', source', hsource, hname, hkeyword', hform', hquoted, hspelled', hbegins,
      hconsidered'⟩ := hspelled.exists_recognised hkeyword a
    have hfront : QuoteFree front := by
      have hall : QuoteFree (a ++ callee.name) := quoteFree_append.mpr ⟨ha, quoteFree_name callee⟩
      rw [← hname] at hall
      exact (quoteFree_append.mp hall).1
    have hidle : busy = true → reference'.form ≠ .extResource := by
      intro _ hpath
      rw [form_eq_extResource_iff, hkeyword'] at hpath
      cases hpath
    have hfound : Layout busy (plains front ++ .found reference' source' :: segments) :=
      .found hfront (hkeyword' ▸ hbegins) hspelled' hconsidered' hidle h
    have halike := (alike_call hform' (path_eq_of_quoted hform' hquoted) hkeyword hkeyword' hname hsource).append
      (.refl segments)
    simp only [List.append_assoc, List.singleton_append] at halike
    exact ⟨_, [.found reference source], hfound, Or.inl rfl, halike⟩

/-! ### A reference after any text -/

theorem eq_plains_of_quoteFree {busy : Bool} {segments : List Segment} (h : Layout busy segments)
    (hfree : QuoteFree (text segments)) : segments = plains (text segments) := by
  rcases h.first with ⟨a, rfl⟩ | ⟨a, q, rest, busy', rfl, ha, hq, -⟩ | ⟨front, reference, source, rest, rfl, -, hspelled⟩
  · rw [text_plains]
  · rw [text_quote, quoteFree_append, quoteFree_cons, hq] at hfree
    cases hfree.2.1
  · obtain ⟨lead, opening, tail, -, hopening, -, rfl⟩ := hspelled.exists_lead
    rw [text_found, quoteFree_append, quoteFree_append, quoteFree_append, quoteFree_cons, hopening] at hfree
    cases hfree.2.1.2.1

/-- A reference put after a text makes it continue another one only where that is an attribute whose path ends
    in what leads to the reference's quote. -/
theorem continues_join {form : Form} {u v : Text} (hspelled : Spelled reference source)
    (h : Continues form (u ++ (source ++ v))) :
    Continues form u ∨ form = .extResource ∧ QuoteFree u ∧ Ignored (u ++ (source ++ v)) := by
  by_cases hu : QuoteFree u
  · obtain ⟨lead, opening, tail, hlead, hopening, hwritable, rfl⟩ := hspelled.exists_lead
    have hfree : QuoteFree (u ++ lead) := quoteFree_append.mpr ⟨hu, Keyword.quoteFree_of_leads hlead⟩
    have htext : u ++ (lead ++ opening :: (reference.quoted ++ tail) ++ v) =
        u ++ lead ++ opening :: (reference.quoted ++ (tail ++ v)) := by simp
    rw [htext, continues_iff hfree hopening] at h
    obtain ⟨hmark, hcloses⟩ := h
    by_cases hform : form = .extResource
    · subst hform
      have hnot := considers_eq_false (leads_form hlead) (List.suffix_append u lead)
      exact Or.inr ⟨rfl, hu, by rw [htext, ignored_iff hfree hopening]; exact ⟨hmark, hnot⟩⟩
    · exact absurd hcloses (not_closes_quoted hform hwritable _)
  · obtain ⟨b, q, w, rfl, hb, hq⟩ := exists_quote hu
    obtain ⟨c, source', rfl, hc⟩ := hspelled.head
    rw [List.append_assoc, List.cons_append, continues_iff hb hq] at h
    obtain ⟨hmark, hcloses⟩ := h
    refine Or.inl ((continues_iff hb hq).mpr ⟨hmark, ?_⟩)
    have hplain : Text.isBlank c = false ∧ c ≠ ')' := by
      rcases hc with rfl | rfl <;> decide
    have := closes_congr hplain.1 hplain.2 hcloses []
    rwa [List.append_nil] at this

theorem ignored_append {u : Text} (h : Ignored u) (v : Text) : Ignored (u ++ v) := by
  obtain ⟨body, closing, rest, rfl, hbody, hne, hclosing, hnot⟩ := h
  exact ⟨body, closing, rest ++ v, by simp, hbody, hne, hclosing, hnot⟩

/-- The layouts of two texts make one of the texts with a reference between them. -/
theorem exists_join {busy : Bool} {before after : List Segment} (hbefore : Layout busy before)
    (hspelled : Spelled reference source) (hconsidered : Index.considers reference = true)
    (hafter : Layout false after) : ∃ joined middle, Layout busy joined ∧ Middle reference source middle ∧
      Alike joined (before ++ (middle ++ after)) := by
  have htext : ∀ {joined rest middle : List Segment}, Middle reference source middle →
      Alike joined (rest ++ (middle ++ after)) → text joined = text rest ++ (source ++ text after) := by
    intro joined rest middle hmiddle halike
    rw [halike.text, text_append, text_append, hmiddle.text]
  have hlonger : ∀ {joined rest middle : List Segment} (a : Text) (segment : Segment),
      Alike joined (rest ++ (middle ++ after)) →
        Alike (plains a ++ segment :: joined) (plains a ++ segment :: rest ++ (middle ++ after)) := by
    intro joined rest middle a segment halike
    rw [List.append_assoc, List.cons_append]
    exact (Alike.refl (plains a)).append ((Alike.refl [segment]).append halike)
  induction hbefore with
  | last ha => exact exists_join_last ha hspelled hconsidered hafter
  | @quote busy a q rest ha hq hno hrest ih =>
    obtain ⟨joined, middle, hjoined, hmiddle, halike⟩ := ih
    by_cases hsite : ∀ form, (busy = true → form ≠ .extResource) → NoSite form a (text joined)
    · exact ⟨_, middle, .quote ha hq hsite hjoined, hmiddle, hlonger a (plain q) halike⟩
    · -- The reference closes an attribute that was open before, and its name is not looked up.
      simp only [NoSite, not_forall, not_not] at hsite
      obtain ⟨form, hidle, lead, hsuffix, hlead, hcontinues⟩ := hsite
      rw [htext hmiddle halike] at hcontinues
      rcases continues_join hspelled hcontinues with hcontinues | ⟨rfl, hfree, hignored⟩
      · exact absurd hcontinues (hno form hidle lead hsuffix hlead)
      · cases busy with
        | true => exact absurd rfl (hidle rfl)
        | false =>
          cases hlead
          obtain ⟨joined', middle', hjoined', hmiddle', halike'⟩ :=
            @exists_join_last _ _ true _ _ hfree hspelled hconsidered hafter
          rw [← hrest.eq_plains_of_quoteFree hfree] at halike'
          rw [← htext hmiddle' halike'] at hignored
          exact ⟨_, middle', .ignored ha hq hsuffix hignored hjoined', hmiddle', hlonger a (plain q) halike'⟩
  | @ignored a q rest ha hq hmark hignored hrest ih =>
    obtain ⟨joined, middle, hjoined, hmiddle, halike⟩ := ih
    have hignored' : Ignored (text joined) := by
      rw [htext hmiddle halike]
      exact ignored_append hignored _
    exact ⟨_, middle, .ignored ha hq hmark hignored' hjoined, hmiddle, hlonger a (plain q) halike⟩
  | @found busy front other source' rest hfront hbegins hspelled' hconsidered' hidle hrest ih =>
    obtain ⟨joined, middle, hjoined, hmiddle, halike⟩ := ih
    exact ⟨_, middle, .found hfront hbegins hspelled' hconsidered' hidle hjoined, hmiddle,
      hlonger front (.found other source') halike⟩

end Layout
end Relink

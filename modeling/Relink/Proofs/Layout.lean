import Relink.Proofs.Cut

/-! # The layout of a text

The layout of a text is its references of all forms at once, with the characters between them. At each
quote that is not inside a reference it tells that no reference opens there, or that an attribute does
whose name is not looked up; such an attribute takes the quote after it, but a call can still open there.
Every text has a layout, and the cut of a text for a form is what the layout has of that form. -/

namespace Relink
open Reference

namespace Segment

/-- The text that segments stand for. -/
def text (segments : List Segment) : Text := segments.flatMap source

@[simp] theorem text_append (a b : List Segment) : text (a ++ b) = text a ++ text b := List.flatMap_append

@[simp] theorem text_cons (segment : Segment) (segments : List Segment) :
    text (segment :: segments) = segment.source ++ text segments := List.flatMap_cons

@[simp] theorem text_plains (a : Text) : text (plains a) = a := flatMap_source_plains a

theorem text_quote (a : Text) (q : Char) (segments : List Segment) :
    text (plains a ++ plain q :: segments) = a ++ q :: text segments := by
  rw [text_append, text_cons, text_plains]
  rfl

theorem text_found (front : Text) (reference : Reference) (source : Text) (segments : List Segment) :
    text (plains front ++ found reference source :: segments) = front ++ (source ++ text segments) := by
  rw [text_append, text_cons, text_plains]
  rfl

/-- What the layout has of a form. -/
def ofForm (form : Form) : Segment → List Segment
  | plain c => [plain c]
  | found reference source => if reference.form = form then [found reference source] else plains source

/-- What a cut has of the references whose name is looked up. -/
def considered : Segment → List Segment
  | plain c => [plain c]
  | found reference source => if Index.considers reference then [found reference source] else plains source

theorem flatMap_plains {f : Segment → List Segment} (hf : ∀ c, f (plain c) = [plain c]) (a : Text) :
    (plains a).flatMap f = plains a := by
  induction a with
  | nil => rfl
  | cons c a ih => rw [plains_cons, List.flatMap_cons, hf, ih, List.singleton_append]

theorem considered_found {reference : Reference} {source : Text} (h : Index.considers reference = true) :
    considered (found reference source) = [found reference source] := by
  simp [considered, h]

theorem considered_ignored {reference : Reference} {source : Text} (h : Index.considers reference = false) :
    considered (found reference source) = plains source := by
  simp [considered, h]

theorem ofForm_of_eq {reference : Reference} {source : Text} {form : Form} (h : reference.form = form) :
    ofForm form (found reference source) = [found reference source] := by
  simp [ofForm, h]

theorem ofForm_of_ne {reference : Reference} {source : Text} {form : Form} (h : reference.form ≠ form) :
    ofForm form (found reference source) = plains source := by
  simp [ofForm, h]

theorem text_considered (segment : Segment) : text (considered segment) = segment.source := by
  cases segment with
  | plain c => rfl
  | found reference source =>
    cases hconsidered : Index.considers reference with
    | true => rw [considered_found hconsidered, text_cons, text, List.flatMap_nil, List.append_nil]
    | false => rw [considered_ignored hconsidered, text_plains, Segment.source]

theorem text_ofForm (form : Form) (segment : Segment) : text (ofForm form segment) = segment.source := by
  cases segment with
  | plain c => rfl
  | found reference source =>
    by_cases hform : reference.form = form
    · rw [ofForm_of_eq hform, text_cons, text, List.flatMap_nil, List.append_nil]
    · rw [ofForm_of_ne hform, text_plains, Segment.source]

theorem mem_ofForm {form : Form} {reference : Reference} {source : Text} {segment : Segment}
    (h : .found reference source ∈ ofForm form segment) : segment = .found reference source := by
  cases segment with
  | plain c => exact (List.mem_singleton.mp h).symm
  | found reference' source' =>
    rw [ofForm] at h
    split at h
    · exact (List.mem_singleton.mp h).symm
    · exact absurd h (found_notMem_plains _ _ _)

theorem flatMap_ofForm_plains (form : Form) (a : Text) : (plains a).flatMap (ofForm form) = plains a :=
  flatMap_plains (fun _ => rfl) a

theorem flatMap_considered_plains (a : Text) : (plains a).flatMap considered = plains a :=
  flatMap_plains (fun _ => rfl) a

end Segment

open Segment

/-- The texts that follow the opening quote of an attribute whose name is not looked up. -/
def Ignored (u : Text) : Prop :=
  ∃ body closing rest, u = Resource.scheme ++ body ++ closing :: rest ∧ QuoteFree body ∧ body ≠ [] ∧
    isQuote closing = true ∧ Index.considers (.extResource (Resource.scheme ++ body)) = false

/-- The layouts of texts. When `busy`, an attribute before the text takes the first quote. -/
inductive Layout : Bool → List Segment → Prop
  | last {busy : Bool} {a : Text} (ha : QuoteFree a) : Layout busy (plains a)
  | quote {busy : Bool} {a : Text} {q : Char} {segments : List Segment} (ha : QuoteFree a) (hq : isQuote q = true)
      (hno : ∀ form, (busy = true → form ≠ .extResource) → NoSite form a (text segments))
      (hrest : Layout false segments) : Layout busy (plains a ++ plain q :: segments)
  | ignored {a : Text} {q : Char} {segments : List Segment} (ha : QuoteFree a) (hq : isQuote q = true)
      (hmark : attributeMark <:+ a) (hignored : Ignored (text segments)) (hrest : Layout true segments) :
      Layout false (plains a ++ plain q :: segments)
  | found {busy : Bool} {front : Text} {reference : Reference} {source : Text} {segments : List Segment}
      (hfront : QuoteFree front) (hbegins : reference.keyword.Begins front) (hspelled : Spelled reference source)
      (hconsidered : Index.considers reference = true) (hidle : busy = true → reference.form ≠ .extResource)
      (hrest : Layout false segments) : Layout busy (plains front ++ found reference source :: segments)

namespace Layout

/-! ### Every text has a layout -/

theorem exists_quote {t : Text} (h : ¬ QuoteFree t) :
    ∃ a q u, t = a ++ q :: u ∧ QuoteFree a ∧ isQuote q = true := by
  induction t with
  | nil => exact absurd quoteFree_nil h
  | cons c t ih =>
    cases hc : isQuote c with
    | true => exact ⟨[], c, t, rfl, quoteFree_nil, hc⟩
    | false =>
      obtain ⟨a, q, u, rfl, ha, hq⟩ := ih fun ht => h (quoteFree_cons.mpr ⟨hc, ht⟩)
      exact ⟨c :: a, q, u, rfl, quoteFree_cons.mpr ⟨hc, ha⟩, hq⟩

/-- A lead of a call is that of the function which is recognised there. -/
theorem exists_begins (front : Text) {callee : Callee} {lead : Text} (h : (Keyword.call callee).Leads lead) :
    ∃ front' callee' lead', front ++ lead = front' ++ lead' ∧ (Keyword.call callee').Leads lead' ∧
      (Keyword.call callee').Begins front' := by
  obtain ⟨inner, hinner, rfl⟩ := h
  cases callee with
  | load =>
    by_cases hpre : ∃ before, front = before ++ "pre".toList ∧ before.getLast?.any Text.isWord = false
    · obtain ⟨before, rfl, hbefore⟩ := hpre
      exact ⟨before, .preload, _, by simp, ⟨inner, hinner, rfl⟩, hbefore⟩
    · refine ⟨front, .load, _, rfl, ⟨inner, hinner, rfl⟩, fun before he => ?_⟩
      cases hw : before.getLast?.any Text.isWord with
      | true => rfl
      | false => exact absurd ⟨before, he, hw⟩ hpre
  | preload =>
    cases hw : front.getLast?.any Text.isWord with
    | false => exact ⟨front, .preload, _, rfl, ⟨inner, hinner, rfl⟩, hw⟩
    | true =>
      refine ⟨front ++ "pre".toList, .load, _, by simp, ⟨inner, hinner, rfl⟩, fun before he => ?_⟩
      rwa [← List.append_cancel_right he]

theorem exists_call {form : Form} (hform : form ≠ .extResource) (callee : Callee) {body : Text}
    (hbody : QuoteFree body) (hne : body ≠ []) :
    ∃ reference : Reference, reference.form = form ∧ reference.keyword = .call callee ∧
      reference.quoted = form.mark ++ body ∧ reference.Writable ∧ Index.considers reference = true := by
  cases form with
  | load => exact ⟨.load callee (Resource.scheme ++ body), rfl, rfl, rfl, ⟨body, rfl, hbody, hne⟩, rfl⟩
  | relativeLoad => exact ⟨.relativeLoad callee body, rfl, rfl, rfl, ⟨body, rfl, hbody, hne⟩, rfl⟩
  | extResource => exact absurd rfl hform

/-- Where a reference opens, it is found unless it is an attribute whose name is not looked up. -/
theorem exists_of_site {form : Form} {a u : Text} {q : Char} (ha : QuoteFree a) (hq : isQuote q = true)
    (hsite : ¬ NoSite form a u) :
    (form = .extResource ∧ attributeMark <:+ a ∧ Ignored u) ∨
      ∃ front reference source rest, QuoteFree front ∧ reference.keyword.Begins front ∧ Spelled reference source ∧
        Index.considers reference = true ∧ reference.form = form ∧ a ++ q :: u = front ++ (source ++ rest) := by
  simp only [NoSite, not_forall, not_not] at hsite
  obtain ⟨lead, ⟨front, rfl⟩, hlead, body, closing, trail, rest, rfl, hbody, hne, hclosing, htrail⟩ := hsite
  have hfront := (quoteFree_append.mp ha).1
  by_cases hform : form = .extResource
  · subst hform
    cases hlead
    cases htrail
    cases hconsidered : Index.considers (.extResource (Resource.scheme ++ body)) with
    | false => exact Or.inl ⟨rfl, List.suffix_append _ _, body, closing, rest, rfl, hbody, hne, hclosing, hconsidered⟩
    | true =>
      have hspelled := spelled_attribute hq hbody hne hclosing
      exact Or.inr ⟨front, .extResource _, _, rest, hfront, trivial, hspelled, hconsidered, rfl, by simp [Form.mark]⟩
  · obtain ⟨-, callee, hcall⟩ := (Form.leads_iff.mp hlead).resolve_right fun h => hform h.1
    obtain ⟨front', callee', lead', he, hlead', hbegins⟩ := exists_begins front hcall
    obtain ⟨reference, rfl, hkeyword, hquoted, hwritable, hconsidered⟩ := exists_call hform callee' hbody hne
    rw [he] at ha
    rw [← hkeyword] at hlead' hbegins
    refine Or.inr ⟨front', reference, _, rest, (quoteFree_append.mp ha).1, hbegins,
      .intro hlead' hq hwritable hclosing htrail, hconsidered, rfl, ?_⟩
    simp [he, hquoted]

theorem exists_layout (t : Text) (busy : Bool) : ∃ segments, Layout busy segments ∧ text segments = t := by
  induction h : t.length using Nat.strongRecOn generalizing t busy with
  | ind n ih =>
  subst h
  by_cases hquote : QuoteFree t
  · exact ⟨_, .last hquote, text_plains t⟩
  obtain ⟨a, q, u, rfl, ha, hq⟩ := exists_quote hquote
  have hshorter : u.length < (a ++ q :: u).length := by
    simp only [List.length_append, List.length_cons]
    omega
  -- The first quote decides: some form opens there, or none does.
  by_cases hsite : ∃ form, (busy = true → form ≠ .extResource) ∧ ¬ NoSite form a u
  · obtain ⟨form, hidle, hsite⟩ := hsite
    rcases exists_of_site ha hq hsite with ⟨rfl, hmark, hignored⟩ |
        ⟨front, reference, source, rest, hfront, hbegins, hspelled, hconsidered, rfl, he⟩
    · obtain ⟨segments, hlayout, hu⟩ := ih u.length hshorter u true rfl
      cases busy with
      | true => exact absurd rfl (hidle rfl)
      | false => exact ⟨_, .ignored ha hq hmark (hu ▸ hignored) hlayout, by rw [text_quote, hu]⟩
    · have hrest : rest.length < (a ++ q :: u).length := by
        obtain ⟨c, source', rfl, -⟩ := hspelled.head
        simp only [he, List.length_append, List.length_cons]
        omega
      obtain ⟨segments, hlayout, hu⟩ := ih rest.length hrest rest false rfl
      exact ⟨_, .found hfront hbegins hspelled hconsidered hidle hlayout, by rw [text_found, hu, he]⟩
  · obtain ⟨segments, hlayout, hu⟩ := ih u.length hshorter u false rfl
    refine ⟨_, .quote ha hq (fun form hform => ?_) hlayout, by rw [text_quote, hu]⟩
    rw [hu]
    by_contra hno
    exact hsite ⟨form, hform, hno⟩

/-! ### Cutting a text with a layout -/

/-- What a cut has of the references whose name is looked up is what the layout has of the form; when an
    attribute before the text takes the first quote, this holds of what follows that quote. -/
theorem cut_layout {busy : Bool} {segments : List Segment} (h : Layout busy segments) :
    (∀ form, (busy = true → form ≠ .extResource) →
      (cut form (text segments)).flatMap considered = segments.flatMap (ofForm form)) ∧
    (busy = true → ∀ b q u, QuoteFree b → isQuote q = true → text segments = b ++ q :: u →
      plains b ++ plain q :: (cut .extResource u).flatMap considered = segments.flatMap (ofForm .extResource)) := by
  induction h with
  | @last busy a ha =>
    refine ⟨fun form _ => ?_, fun _ b q u hb hq he => ?_⟩
    · rw [text_plains, cut_of_quoteFree ha, flatMap_considered_plains, flatMap_ofForm_plains]
    · rw [text_plains] at he
      rw [he, quoteFree_append, quoteFree_cons, hq] at ha
      cases ha.2.1
  | @quote busy a q segments ha hq hno hrest ih =>
    refine ⟨fun form hform => ?_, fun _ b q' u hb hq' he => ?_⟩
    · rw [text_quote, cut_quote ha hq (hno form hform), List.flatMap_append, List.flatMap_append, List.flatMap_cons,
        List.flatMap_cons, ih.1 form nofun, flatMap_considered_plains, flatMap_ofForm_plains]
      rfl
    · obtain ⟨rfl, rfl, rfl⟩ := append_cons_inj ha hb hq hq' ((text_quote a q segments).symm.trans he)
      rw [ih.1 _ nofun, List.flatMap_append, List.flatMap_cons, flatMap_ofForm_plains]
      rfl
  | @ignored a q segments ha hq hmark hignored hrest ih =>
    refine ⟨fun form _ => ?_, nofun⟩
    rw [text_quote, List.flatMap_append, List.flatMap_cons, flatMap_ofForm_plains]
    by_cases hform : form = .extResource
    · -- The cut takes the attribute with the quote after it, and `considered` gives its characters back.
      subst hform
      obtain ⟨front, rfl⟩ := hmark
      have hbusy := ih.2 rfl
      obtain ⟨body, closing, rest, hu, hbody, hne, hclosing, hnot⟩ := hignored
      have hspelled := spelled_attribute hq hbody hne hclosing
      have hcut : cut .extResource _ = _ := cut_found hspelled (quoteFree_append.mp ha).1 trivial rest
      have hrest := hbusy _ closing rest (quoteFree_append.mpr ⟨Form.quoteFree_mark .extResource, hbody⟩) hclosing hu
      have htext' : front ++ attributeMark ++ q :: (Resource.scheme ++ body ++ closing :: rest) =
          front ++ (attributeMark ++ q :: (Resource.scheme ++ body ++ closing :: []) ++ rest) := by simp
      rw [hu, ← hrest, htext', hcut, List.flatMap_append, List.flatMap_cons, flatMap_considered_plains,
        considered_ignored hnot]
      simp [plains_cons, ofForm, Form.mark, form]
    · rw [cut_quote ha hq (noSite_of_attributeMark hmark hform), List.flatMap_append, List.flatMap_cons,
        ih.1 form fun _ => hform, flatMap_considered_plains]
      rfl
  | @found busy front reference source segments hfront hbegins hspelled hconsidered hidle hrest ih =>
    refine ⟨fun form hform => ?_, fun hbusy b q u hb hq he => ?_⟩
    · rw [text_found, List.flatMap_append, List.flatMap_cons, flatMap_ofForm_plains, ← ih.1 form nofun]
      by_cases he : reference.form = form
      · subst he
        rw [cut_found hspelled hfront hbegins, ofForm_of_eq rfl, List.flatMap_append, List.flatMap_cons,
          flatMap_considered_plains, considered_found hconsidered]
      · rw [cut_of_ne hspelled hconsidered he hfront, ofForm_of_ne he, List.flatMap_append, List.flatMap_append,
          flatMap_considered_plains, flatMap_considered_plains]
    · have hs := hspelled
      obtain @⟨lead, trail, opening, closing, hlead, hopening, -, -, -⟩ := hspelled
      have hlead' := Keyword.quoteFree_of_leads hlead
      have hfirst : front ++ lead ++ opening :: (reference.quoted ++ closing :: trail ++ text segments) =
          b ++ q :: u := by
        rw [← he, text_found]
        simp
      have hinside : lead ++ opening :: (reference.quoted ++ closing :: trail ++ text segments) =
          lead ++ opening :: (reference.quoted ++ closing :: trail) ++ text segments := by simp
      obtain ⟨inside, hsource, -, hcut⟩ := cut_inside hs hconsidered hlead' hopening hinside
      obtain ⟨rfl, rfl, rfl⟩ := append_cons_inj (quoteFree_append.mpr ⟨hfront, hlead'⟩) hb hopening hq hfirst
      rw [hcut, hsource, List.flatMap_append, List.flatMap_append, List.flatMap_cons, ih.1 _ nofun,
        ofForm_of_ne (hidle hbusy), flatMap_considered_plains, flatMap_ofForm_plains]
      simp [plains_cons]

end Layout
end Relink

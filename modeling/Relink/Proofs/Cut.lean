import Relink.Proofs.Site

/-! # Cutting a text at its quotes

Where no reference opens at a quote, the cut of a text is what precedes the quote, then the quote, then
the cut of what follows. Where one opens, the cut is the reference between what precedes its lead and the
cut of what follows its trail. So the parts of a text around a reference are cut apart. -/

namespace Relink
namespace Segment
open Reference

/-! ### Characters, skips and hits -/

/-- A text outside the references. -/
def plains (text : Text) : List Segment := text.map plain

@[simp] theorem plains_nil : plains [] = [] := rfl

@[simp] theorem plains_append (a b : Text) : plains (a ++ b) = plains a ++ plains b := List.map_append

theorem plains_cons (c : Char) (a : Text) : plains (c :: a) = plain c :: plains a := rfl

theorem found_notMem_plains (reference : Reference) (source a : Text) : .found reference source ∉ plains a := by
  simp [plains]

theorem flatMap_source_plains (a : Text) : (plains a).flatMap source = a := by
  simp [plains, List.flatMap_map, source]

theorem cutFrom_congr {form : Form} {previous previous' : Option Char}
    (h : previous.any Text.isWord = previous'.any Text.isWord) (text : Text) :
    cutFrom form 0 previous text = cutFrom form 0 previous' text := by
  cases text with
  | nil => rfl
  | cons c text => rw [cutFrom, cutFrom, hit?_congr h]

/-- After a character that is no part of a word a text is cut as from its start. -/
theorem cutFrom_eq_cut {form : Form} {previous : Option Char} (h : previous.any Text.isWord = false) (text : Text) :
    cutFrom form 0 previous text = cut form text :=
  cutFrom_congr (h.trans rfl) text

theorem cutFrom_skip (form : Form) (previous : Option Char) (skipped text : Text) :
    cutFrom form skipped.length previous (skipped ++ text) = cutFrom form 0 (skipped.getLast?.or previous) text := by
  induction skipped generalizing previous with
  | nil => rfl
  | cons c skipped ih =>
    rw [List.length_cons, List.cons_append, cutFrom, ih, getLast?_cons_or]

theorem cutFrom_hit {form : Form} {previous : Option Char} {text : Text} {hit : Hit}
    (h : hit? form previous text = some hit) :
    cutFrom form 0 previous text =
      found hit.reference hit.source :: cutFrom form 0 hit.source.getLast? hit.rest := by
  obtain ⟨-, hspelled, -, rfl⟩ := hit?_eq_some_iff.mp h
  obtain ⟨c, source', hs, -⟩ := hspelled.head
  rw [hs] at h ⊢
  have hlast := getLast?_cons_or c source' none
  rw [Option.or_none] at hlast
  rw [List.cons_append] at h ⊢
  rw [cutFrom, h, hlast, ← cutFrom_skip]
  simp only [hs, List.length_cons, Nat.add_sub_cancel]

/-- Characters at which no reference starts are cut off one by one. -/
theorem cutFrom_plains {form : Form} {previous : Option Char} {a u : Text}
    (h : ∀ x d, a = x ++ d → d ≠ [] → hit? form (x.getLast?.or previous) (d ++ u) = none) :
    cutFrom form 0 previous (a ++ u) = plains a ++ cutFrom form 0 (a.getLast?.or previous) u := by
  induction a generalizing previous with
  | nil => rfl
  | cons c a ih =>
    have hc := h [] (c :: a) rfl (List.cons_ne_nil _ _)
    rw [List.getLast?_nil, Option.none_or, List.cons_append] at hc
    rw [List.cons_append, cutFrom, hc, plains_cons, List.cons_append, getLast?_cons_or]
    refine congrArg _ (ih fun x d he hd => ?_)
    rw [← getLast?_cons_or]
    exact h (c :: x) d (congrArg (c :: ·) he) hd

theorem cutFrom_plain {form : Form} {previous : Option Char} {c : Char} {text : Text}
    (h : hit? form previous (c :: text) = none) :
    cutFrom form 0 previous (c :: text) = plain c :: cutFrom form 0 (some c) text := by
  rw [cutFrom, h]

/-! ### The cut of a text at a quote -/

theorem cut_of_quoteFree {form : Form} {a : Text} (ha : QuoteFree a) : cut form a = plains a := by
  have h : cutFrom form 0 none (a ++ []) = _ := cutFrom_plains fun x d he _ => by
    rw [List.append_nil]
    exact hit?_eq_none_of_quoteFree (quoteFree_of_suffix ⟨x, he.symm⟩ ha)
  rwa [List.append_nil, show cutFrom form 0 _ [] = [] from rfl, List.append_nil] at h

/-- At a quote where no reference opens, what precedes it and what follows it are cut apart. -/
theorem cut_quote {form : Form} {a u : Text} {q : Char} (ha : QuoteFree a) (hq : isQuote q = true)
    (hno : NoSite form a u) : cut form (a ++ q :: u) = plains a ++ plain q :: cut form u := by
  have hhead : hit? form (a.getLast?.or none) (q :: u) = none :=
    hit?_eq_none_of_noSite ha (List.nil_suffix) hq hno
  rw [cut, cutFrom_plains fun x d he _ => hit?_eq_none_of_noSite ha ⟨x, he.symm⟩ hq hno, cutFrom_plain hhead,
    cutFrom_eq_cut (by simp [isWord_of_isQuote hq])]

/-- After a closing quote the trail is cut off one by one. -/
theorem cut_trail {form form' : Form} {trail u : Text} (htrail : form'.Trails trail) :
    cut form (trail ++ u) = plains trail ++ cut form u := by
  rw [cut, cutFrom_plains, Option.or_none, cutFrom_eq_cut (Form.isWord_getLast?_of_trails htrail)]
  intro x d he hd
  obtain ⟨c, d, rfl⟩ := List.exists_cons_of_ne_nil hd
  obtain ⟨hl, hp, -, -⟩ := Form.not_mem_of_trails htrail (c := c) (by simp [he])
  exact hit?_eq_none_of_head hl hp

/-! ### The cut of a text at a reference -/

section Spelling
variable {reference : Reference} {source : Text}

/-- From its opening quote on, a spelling holds no other reference. -/
theorem cut_inside (hspelled : Spelled reference source) (hconsidered : Index.considers reference = true)
    {d u rest : Text} {q : Char} (hd : QuoteFree d) (hq : isQuote q = true) (he : d ++ q :: u = source ++ rest) :
    ∃ inside, source = d ++ q :: inside ∧ u = inside ++ rest ∧
      ∀ form, cut form u = plains inside ++ cut form rest := by
  obtain ⟨-, hwritable, closing, trail, hclosing, htrail, rfl⟩ := hspelled.at_quote hd hq he
  refine ⟨reference.quoted ++ closing :: trail, ?_, by simp, fun form => ?_⟩
  · have : (d ++ q :: (reference.quoted ++ closing :: trail)) ++ rest = source ++ rest := by simpa using he
    exact (List.append_cancel_right this).symm
  · rw [cut_quote hwritable.quoteFree hclosing (noSite_quoted hconsidered htrail), cut_trail htrail, plains_append,
      plains_cons, List.append_assoc, List.cons_append]

/-- A cut for another form has nothing at a reference. -/
theorem cut_of_ne (hspelled : Spelled reference source) (hconsidered : Index.considers reference = true)
    {form : Form} (hne : reference.form ≠ form) {front : Text} (hfront : QuoteFree front) (rest : Text) :
    cut form (front ++ (source ++ rest)) = plains front ++ (plains source ++ cut form rest) := by
  have hs := hspelled
  obtain @⟨lead, trail, opening, closing, hlead, hopening, hwritable, hclosing, htrail⟩ := hspelled
  have hlead' := Keyword.quoteFree_of_leads hlead
  have he : lead ++ opening :: (reference.quoted ++ (closing :: trail ++ rest)) =
      lead ++ opening :: (reference.quoted ++ closing :: trail) ++ rest := by simp
  obtain ⟨inside, hsource, -, hcut⟩ := cut_inside hs hconsidered hlead' hopening he
  have hquote : cut form (front ++ lead ++ opening :: (reference.quoted ++ (closing :: trail ++ rest))) = _ :=
    cut_quote (quoteFree_append.mpr ⟨hfront, hlead'⟩) hopening (noSite_lead hne hlead hwritable)
  rw [← he, ← List.append_assoc, hquote, hcut, hsource]
  simp [plains_cons]

/-- A cut for the reference's form finds it. -/
theorem cut_found (hspelled : Spelled reference source) {front : Text} (hfront : QuoteFree front)
    (hbegins : reference.keyword.Begins front) (rest : Text) :
    cut reference.form (front ++ (source ++ rest)) =
      plains front ++ found reference source :: cut reference.form rest := by
  have hfollows : reference.keyword.Follows (front.getLast?.or none) := fun h => by
    rw [h] at hbegins
    rwa [Option.or_none]
  have hhit : hit? reference.form (front.getLast?.or none) (source ++ rest) = some ⟨reference, source, rest⟩ :=
    hit?_eq_some_iff.mpr ⟨rfl, hspelled, hfollows, rfl⟩
  rw [cut, cutFrom_plains, cutFrom_hit hhit, cutFrom_eq_cut hspelled.isWord_getLast?]
  -- A hit before the reference would start with its lead, so it could only add `pre` to `load`.
  intro x d he hd
  refine Option.eq_none_iff_forall_ne_some.mpr fun hit hhit => ?_
  obtain ⟨-, hspelled', hfollows', he'⟩ := hit?_eq_some_iff.mp hhit
  obtain @⟨lead, trail, opening, closing, hlead, hopening, -, -, -⟩ := hspelled
  have hd' : QuoteFree (d ++ lead) :=
    quoteFree_append.mpr ⟨quoteFree_of_suffix ⟨x, he.symm⟩ hfront, Keyword.quoteFree_of_leads hlead⟩
  have he'' : d ++ lead ++ opening :: (reference.quoted ++ closing :: trail ++ rest) = hit.source ++ hit.rest := by
    rw [← he']
    simp
  obtain ⟨hlead', -, -⟩ := hspelled'.at_quote hd' hopening he''
  obtain ⟨rfl, hk, hk'⟩ := Keyword.leads_append hlead hlead' hd
  rw [hk] at hbegins
  have htrue := hbegins x he
  rw [← Option.or_none (o := x.getLast?), hfollows' hk'] at htrue
  cases htrue

end Spelling

end Segment
end Relink

import Mathlib.Data.List.Basic
import Mathlib.Data.List.Infix
import Relink.Proofs.Layout
import Relink.Proofs.Relocating

/-! # Texts with an unclosed attribute

The path of an attribute ends at the next quote, on whatever line that stands. When the last attribute of a text
has no closing quote, the opening quote of an attribute put after the text closes it, and the attribute that was
put there is not found. All other texts are cut apart from the attribute. Relocations make no text one with an
unclosed attribute, and leave none without it. -/

namespace Relink

namespace Text
variable {old new z text : Text} {c : Char}

/-! ### Both ends of a text after replacing -/

/-- What has not the first letter of what is replaced stays in front. -/
theorem prefix_replaceAll (hold : old.head? = some c) (hnew : new.head? = some c) (hz : c ∉ z) :
    z <+: replaceAll old new text ↔ z <+: text := by
  induction z generalizing text with
  | nil => simp only [List.nil_prefix]
  | cons d z ih =>
    obtain ⟨hd, hz⟩ := not_or.mp (mt List.mem_cons.mpr hz)
    -- A text that starts with the letter starts with nothing that has it not.
    have hhead : ∀ t u : Text, t.head? = some c → ¬ d :: z <+: t ++ u := by
      rintro t u ht ⟨v, hv⟩
      cases t with
      | nil => cases ht
      | cons e t =>
        cases ht
        exact hd (List.cons.inj hv).1.symm
    cases text with
    | nil => rfl
    | cons e text =>
      rw [replaceAll, replaceFrom]
      split
      · rename_i hfront
        obtain ⟨rest, hrest⟩ := List.isPrefixOf_iff_prefix.mp hfront
        rw [← hrest]
        exact iff_of_false (hhead _ _ hnew) (hhead _ _ hold)
      · rw [List.cons_prefix_cons, List.cons_prefix_cons]
        exact and_congr_right fun _ => ih hz

/-- Replacing what ends in a letter by something that does keeps that letter at the end of a text. -/
theorem getLast?_replaceAll (hold : old.getLast? = some c) (hnew : new.getLast? = some c)
    (hlast : text.getLast? = some c) : (replaceAll old new text).getLast? = some c := by
  have hne : old ≠ [] := by
    rintro rfl
    cases hold
  induction hlength : text.length using Nat.strongRecOn generalizing text with
  | ind k ih =>
  subst hlength
  have hrest : ∀ a u : Text, a ≠ [] → text = a ++ u → u = [] ∨ (replaceAll old new u).getLast? = some c := by
    rintro a u ha rfl
    refine or_iff_not_imp_left.mpr fun hu => ih u.length ?_ ?_ rfl
    · rw [List.length_append]
      exact Nat.lt_add_of_pos_left (List.length_pos_iff.mpr ha)
    · rwa [List.getLast?_append_of_ne_nil _ hu] at hlast
  by_cases hfront : old <+: text
  · obtain ⟨u, rfl⟩ := hfront
    rw [ replaceAll_of_prefix hne]
    rcases hrest old u hne rfl with rfl | hu
    · rw [show replaceAll old new [] = [] from rfl, List.append_nil, hnew]
    · rw [List.getLast?_append, hu, Option.some_or]
  · cases text with
    | nil => cases hlast
    | cons d u =>
      rw [replaceAll, replaceFrom, if_neg (mt List.isPrefixOf_iff_prefix.mp hfront)]
      rcases hrest [d] u (List.cons_ne_nil _ _) rfl with rfl | hu
      · exact hlast
      · have hcopied : (replaceFrom old new 0 u).getLast? = some c := hu
        rw [List.getLast?_cons, hcopied]
        rfl

/-- What has not the last letter of what is replaced stays at the end. -/
theorem suffix_replaceAll (hold : old.getLast? = some c) (hnew : new.getLast? = some c) (hz : c ∉ z) :
    z <:+ replaceAll old new text ↔ z <:+ text := by
  induction z using List.reverseRecOn generalizing text with
  | nil => simp only [List.nil_suffix]
  | append_singleton z d ih =>
    have hd : d ≠ c := fun h => hz (by simp [h])
    have hz : c ∉ z := fun h => hz (List.mem_append_left _ h)
    rcases List.eq_nil_or_concat text with rfl | ⟨text, e, rfl⟩
    · rfl
    · rw [List.concat_eq_append]
      by_cases he : e = c
      · -- Both texts end in the letter.
        have hlast : ∀ u : Text, u.getLast? = some c → ¬ z ++ [d] <:+ u := by
          intro u hu hsuffix
          have := Reference.getLast?_of_suffix hsuffix List.getLast?_concat
          rw [hu] at this
          exact hd (Option.some.inj this).symm
        have hend : (text ++ [e]).getLast? = some c := by rw [List.getLast?_concat, he]
        exact iff_of_false (hlast _ (getLast?_replaceAll hold hnew hend)) (hlast _ hend)
      · have hcopied : c ∉ [e] := fun h => he (List.mem_singleton.mp h).symm
        rw [replaceAll_append_of_last hold hcopied]
        simp only [List.suffix_concat_iff, List.append_eq_nil_iff, List.cons_ne_self, and_false, false_or,
          List.append_singleton_inj]
        refine exists_congr fun t => and_congr_right ?_
        rintro ⟨rfl, -⟩
        exact ih hz

end Text

namespace Reference
open Segment

variable {a b u w source text : Text} {q : Char}

/-- What leads to the quote of an attribute, with the quote. -/
def attributeOpening : Text := attributeMark ++ ['\x22']

/-- Whether an attribute that starts in the text takes the opening quote of one that is put after it, so that the
    two are not cut apart. -/
def Unclosed (text : Text) : Prop :=
  cut .extResource (text ++ attributeOpening) ≠ cut .extResource text ++ plains attributeOpening

instance (text : Text) : Decidable (Unclosed text) := inferInstanceAs (Decidable (_ ≠ _))

/-! ### What follows the first quote -/

/-- Whether no attribute opens at a quote with `a` before and `u` after it, even when another text follows: at most
    one with an empty path seems to. -/
def Shut (a u : Text) : Prop := attributeMark <:+ a → ∀ b, u = Resource.scheme ++ b → b.head?.any isQuote = true

theorem Shut.noSite (h : Shut a u) : NoSite .extResource a u := by
  rintro lead hmark rfl ⟨body, closing, trail, rest, rfl, hbody, hne, -, -⟩
  obtain ⟨d, body, rfl⟩ := List.exists_cons_of_ne_nil hne
  have hquote : isQuote d = true := h hmark _ (List.append_assoc ..)
  rw [(quoteFree_cons.mp hbody).1] at hquote
  cases hquote

theorem Shut.append (h : Shut a u) (hw : w.head? = some 'p') : Shut a (u ++ w) := by
  intro hmark b hb
  rcases List.append_eq_append_iff.mp hb with ⟨v, hv, hrest⟩ | ⟨v, rfl, rfl⟩
  · -- What is put behind would have to go on with the scheme.
    cases v with
    | nil =>
      rw [List.append_nil] at hv
      exact absurd (h hmark [] (hv.symm.trans (List.append_nil _).symm)) (by decide)
    | cons e v =>
      rw [hrest] at hw
      cases hw
      have hp : 'p' ∈ Resource.scheme := hv ▸ List.mem_append_right u List.mem_cons_self
      exact absurd hp (by decide)
  · have hquote := h hmark v rfl
    cases v with
    | nil => cases hquote
    | cons e v => exact hquote

theorem Shut.of_append (h : Shut a (u ++ (attributeMark ++ w))) : Shut a u := by
  rintro hmark b rfl
  have hquote := h hmark (b ++ (attributeMark ++ w)) (List.append_assoc _ _ _)
  cases b with
  | nil => exact hquote
  | cons c b => exact hquote

/-- What holds of texts without quotes and of texts whose only attribute is unclosed, and of a text when it holds of
    what follows the first quote or the first attribute, holds of all texts. -/
theorem attribute_induction {P : Text → Prop} (last : ∀ a, QuoteFree a → P a)
    (unclosed : ∀ a q b, QuoteFree a → isQuote q = true → QuoteFree b →
      P (a ++ (attributeMark ++ q :: (Resource.scheme ++ b))))
    (shut : ∀ a q u, QuoteFree a → isQuote q = true → Shut a u → P u → P (a ++ q :: u))
    (found : ∀ a path source u, QuoteFree a → Spelled (.extResource path) source → P u → P (a ++ (source ++ u)))
    (text : Text) : P text := by
  induction hlength : text.length using Nat.strongRecOn generalizing text with
  | ind k ih =>
  subst hlength
  by_cases hquote : QuoteFree text
  · exact last text hquote
  obtain ⟨a, q, u, rfl, ha, hq⟩ := Layout.exists_quote hquote
  -- An attribute opens at the first quote or not; if so, the second quote closes it, if there is one.
  by_cases hshut : Shut a u
  · refine shut a q u ha hq hshut (ih u.length ?_ u rfl)
    simp only [List.length_append, List.length_cons]
    omega
  · simp only [Shut, not_forall] at hshut
    obtain ⟨⟨front, rfl⟩, b, rfl, hhead⟩ := hshut
    obtain ⟨hfront, -⟩ := quoteFree_append.mp ha
    rw [List.append_assoc]
    by_cases hb : QuoteFree b
    · exact unclosed front q b hfront hq hb
    · obtain ⟨body, closing, v, rfl, hbody, hclosing⟩ := Layout.exists_quote hb
      have hne : body ≠ [] := by
        rintro rfl
        exact hhead hclosing
      have hspelled := spelled_attribute hq hbody hne hclosing
      have hsplit : attributeMark ++ q :: (Resource.scheme ++ (body ++ closing :: v)) =
          attributeMark ++ q :: (Resource.scheme ++ body ++ closing :: []) ++ v := by simp
      rw [hsplit]
      refine found front _ _ v hfront hspelled (ih v.length ?_ v rfl)
      simp only [List.length_append, List.length_cons]
      omega

/-! ### Texts before an attribute -/

theorem cut_shut (ha : QuoteFree a) (hq : isQuote q = true) (h : Shut a u) :
    cut .extResource (a ++ q :: u) = plains a ++ plain q :: cut .extResource u := cut_quote ha hq h.noSite

theorem cut_attribute {path : Text} (ha : QuoteFree a) (hspelled : Spelled (.extResource path) source) (rest : Text) :
    cut .extResource (a ++ (source ++ rest)) = plains a ++ found (.extResource path) source :: cut .extResource rest :=
  cut_found hspelled ha trivial rest

theorem cut_opening (ha : QuoteFree a) (hq : isQuote q = true) (w : Text) :
    cut .extResource (a ++ (attributeMark ++ q :: w)) = plains a ++ cut .extResource (attributeMark ++ q :: w) := by
  by_cases hcontinues : Continues .extResource w
  · obtain ⟨body, closing, trail, rest, rfl, hbody, hne, hclosing, rfl⟩ := hcontinues
    have hspelled := spelled_attribute hq hbody hne hclosing
    have hsplit : attributeMark ++ q :: (Resource.scheme ++ body ++ closing :: ([] ++ rest)) =
        attributeMark ++ q :: (Resource.scheme ++ body ++ closing :: []) ++ rest := by simp
    have halone := cut_attribute quoteFree_nil hspelled rest
    rw [plains_nil, List.nil_append, List.nil_append] at halone
    rw [show Form.extResource.mark = Resource.scheme from rfl, hsplit, cut_attribute ha hspelled, halone]
  · have hno : ∀ front, NoSite .extResource front w := fun front lead _ _ => hcontinues
    have hmark : QuoteFree attributeMark := by decide
    rw [← List.append_assoc, cut_quote (quoteFree_append.mpr ⟨ha, hmark⟩) hq (hno _), cut_quote hmark hq (hno _),
      plains_append, List.append_assoc]

theorem cut_unclosed (ha : QuoteFree a) (hq : isQuote q = true) (hb : QuoteFree b) :
    cut .extResource (a ++ (attributeMark ++ q :: b)) = plains (a ++ (attributeMark ++ q :: b)) := by
  have hno : NoSite .extResource (a ++ attributeMark) b := by
    rintro lead - - ⟨body, closing, trail, rest, rfl, -, -, hclosing, -⟩
    rw [quoteFree_append, quoteFree_cons, hclosing] at hb
    cases hb.2.1
  have hmark : QuoteFree (a ++ attributeMark) := quoteFree_append.mpr ⟨ha, by decide⟩
  rw [← List.append_assoc, cut_quote hmark hq hno, cut_of_quoteFree hb, plains_append _ (q :: b), plains_cons]

theorem append_found_ne_plains (segments rest : List Segment) (reference : Reference) (source a : Text) :
    segments ++ found reference source :: rest ≠ plains a := by
  intro he
  refine found_notMem_plains reference source a ?_
  rw [← he]
  exact List.mem_append_right segments List.mem_cons_self

theorem not_unclosed_of_quoteFree (ha : QuoteFree a) : ¬ Unclosed a := by
  have hopening : cut .extResource attributeOpening = plains attributeOpening :=
    cut_unclosed quoteFree_nil rfl quoteFree_nil
  have hcut : cut .extResource (a ++ attributeOpening) = _ := cut_opening ha rfl []
  rw [Unclosed, hcut, cut_of_quoteFree ha]
  exact not_not.mpr (congrArg (plains a ++ ·) hopening)

theorem unclosed_shut (ha : QuoteFree a) (hq : isQuote q = true) (h : Shut a u) :
    Unclosed (a ++ q :: u) ↔ Unclosed u := by
  have hopening : Shut a (u ++ attributeOpening) := h.append rfl
  rw [Unclosed, Unclosed, List.append_assoc, List.cons_append, cut_shut ha hq h, cut_shut ha hq hopening,
    List.append_assoc, List.cons_append, Ne, List.append_cancel_left_eq, List.cons_inj_right]

theorem unclosed_found {path : Text} (ha : QuoteFree a) (hspelled : Spelled (.extResource path) source) :
    Unclosed (a ++ (source ++ u)) ↔ Unclosed u := by
  rw [Unclosed, Unclosed, List.append_assoc, List.append_assoc, cut_attribute ha hspelled, cut_attribute ha hspelled,
    List.append_assoc, List.cons_append, Ne, List.append_cancel_left_eq, List.cons_inj_right]

theorem unclosed_open (ha : QuoteFree a) (hq : isQuote q = true) (hb : QuoteFree b) :
    Unclosed (a ++ (attributeMark ++ q :: (Resource.scheme ++ b))) := by
  have hbody : QuoteFree (b ++ attributeMark) := quoteFree_append.mpr ⟨hb, by decide⟩
  have hne : b ++ attributeMark ≠ [] := List.append_ne_nil_of_right_ne_nil b (List.cons_ne_nil _ _)
  have hspelled := @spelled_attribute q '\x22' _ hq hbody hne rfl
  have hcut := cut_attribute ha hspelled []
  have hsplit : a ++ (attributeMark ++ q :: (Resource.scheme ++ b)) ++ attributeOpening =
      a ++ (attributeMark ++ q :: (Resource.scheme ++ (b ++ attributeMark) ++ '\x22' :: []) ++ []) := by
    simp [attributeOpening]
  have hscheme : QuoteFree (Resource.scheme ++ b) := quoteFree_append.mpr ⟨by decide, hb⟩
  rw [Unclosed, hsplit, hcut, cut_unclosed ha hq hscheme, ← plains_append]
  exact append_found_ne_plains _ _ _ _ _

/-- A text without an unclosed attribute is cut apart from an attribute's opening that is put after it. -/
theorem cut_append_opening (h : ¬ Unclosed text) (hq : isQuote q = true) (w : Text) :
    cut .extResource (text ++ (attributeMark ++ q :: w)) =
      cut .extResource text ++ cut .extResource (attributeMark ++ q :: w) := by
  induction text using attribute_induction with
  | last a ha => rw [cut_opening ha hq, cut_of_quoteFree ha]
  | unclosed a q' b ha hq' hb => exact absurd (unclosed_open ha hq' hb) h
  | shut a q' u ha hq' hshut ih =>
    rw [unclosed_shut ha hq' hshut] at h
    have hopening : Shut a (u ++ (attributeMark ++ q :: w)) := hshut.append rfl
    rw [List.append_assoc, List.cons_append, cut_shut ha hq' hshut, cut_shut ha hq' hopening, ih h, List.append_assoc,
      List.cons_append]
  | found a path source u ha hspelled ih =>
    rw [unclosed_found ha hspelled] at h
    rw [List.append_assoc, List.append_assoc source, cut_attribute ha hspelled, cut_attribute ha hspelled, ih h,
      List.append_assoc, List.cons_append]

/-- An attribute is unclosed when it starts where none is and has no closing quote. -/
theorem unclosed_iff : Unclosed text ↔ ∃ front q body,
    text = front ++ (attributeMark ++ q :: (Resource.scheme ++ body)) ∧ isQuote q = true ∧ QuoteFree body ∧
      ¬ Unclosed front := by
  constructor
  · intro h
    induction text using attribute_induction with
    | last a ha => exact absurd h (not_unclosed_of_quoteFree ha)
    | unclosed a q b ha hq hb => exact ⟨a, q, b, rfl, hq, hb, not_unclosed_of_quoteFree ha⟩
    | shut a q u ha hq hshut ih =>
      obtain ⟨front, q', body, rfl, hq', hbody, hfront⟩ := ih ((unclosed_shut ha hq hshut).mp h)
      refine ⟨a ++ q :: front, q', body, by simp, hq', hbody, ?_⟩
      rwa [unclosed_shut ha hq hshut.of_append]
    | found a path source u ha hspelled ih =>
      obtain ⟨front, q', body, rfl, hq', hbody, hfront⟩ := ih ((unclosed_found ha hspelled).mp h)
      refine ⟨a ++ (source ++ front), q', body, by simp, hq', hbody, ?_⟩
      rwa [unclosed_found ha hspelled]
  · rintro ⟨front, q, body, rfl, hq, hbody, hfront⟩
    have halone : Unclosed ([] ++ (attributeMark ++ q :: (Resource.scheme ++ body))) :=
      unclosed_open quoteFree_nil hq hbody
    have hopening : ∀ a, a ++ (attributeMark ++ q :: (Resource.scheme ++ body)) ++ attributeOpening =
        a ++ (attributeMark ++ q :: (Resource.scheme ++ body ++ attributeOpening)) := fun a => by simp
    rw [Unclosed, hopening] at halone ⊢
    rw [cut_append_opening hfront hq, cut_append_opening hfront hq, List.append_assoc (cut .extResource front), Ne,
      List.append_cancel_left_eq]
    exact halone

/-! ### An attribute after a text -/

theorem cut_append_attribute {path : Text} (hspelled : Spelled (.extResource path) source) (h : ¬ Unclosed text)
    (rest : Text) : cut .extResource (text ++ (source ++ rest)) =
      cut .extResource text ++ found (.extResource path) source :: cut .extResource rest := by
  have halone := cut_attribute quoteFree_nil hspelled rest
  obtain ⟨lead, opening, tail, rfl, hopening, -, rfl⟩ := hspelled.exists_lead
  rw [List.nil_append, plains_nil, List.nil_append] at halone
  rw [← halone, List.append_assoc, List.cons_append]
  exact cut_append_opening h hopening _

/-- An unclosed attribute takes the opening quote of the next one, and of that only characters are left. The name of
    what is found then is not looked up. -/
theorem exists_cut_append_attribute {path : Text} (hspelled : Spelled (.extResource path) source)
    (hconsidered : Index.considers (.extResource path) = true) (h : Unclosed text) (rest : Text) :
    ∃ segments reference a b c, Index.considers reference = false ∧ source = b ++ c ∧
      cut .extResource text = segments ++ plains a ∧
      cut .extResource (text ++ (source ++ rest)) =
        segments ++ found reference (a ++ b) :: (plains c ++ cut .extResource rest) := by
  obtain ⟨front, q, body, rfl, hq, hbody, hfront⟩ := unclosed_iff.mp h
  obtain @⟨lead, trail, opening, closing, hlead, hopening, hwritable, hclosing, htrail⟩ := hspelled
  cases hlead
  cases htrail
  have hfree : QuoteFree (body ++ attributeMark) := quoteFree_append.mpr ⟨hbody, by decide⟩
  have hne : body ++ attributeMark ≠ [] := List.append_ne_nil_of_right_ne_nil body (List.cons_ne_nil _ _)
  have hspelled := spelled_attribute hq hfree hne hopening
  have hignored : Index.considers (.extResource (Resource.scheme ++ (body ++ attributeMark))) = false :=
    @considers_eq_false .extResource _ _ rfl ⟨Resource.scheme ++ body, List.append_assoc _ _ _⟩
  have hpath : cut .extResource (path ++ closing :: rest) = plains path ++ plain closing :: cut .extResource rest :=
    cut_quote hwritable.quoteFree hclosing (@noSite_quoted (.extResource path) _ [] _ hconsidered rfl)
  have hopen : cut .extResource (attributeMark ++ q :: (Resource.scheme ++ body)) = _ :=
    cut_unclosed quoteFree_nil hq (quoteFree_append.mpr ⟨Form.quoteFree_mark .extResource, hbody⟩)
  refine ⟨cut .extResource front, _, attributeMark ++ q :: (Resource.scheme ++ body), attributeMark ++ [opening],
    path ++ [closing], hignored, by simp [quoted], ?_, ?_⟩
  · rw [cut_append_opening hfront hq, hopen, List.nil_append]
  · have hcut := cut_append_attribute hspelled hfront (path ++ closing :: rest)
    rw [hpath] at hcut
    have hsource : attributeMark ++ q :: (Resource.scheme ++ (body ++ attributeMark) ++ opening :: []) =
        attributeMark ++ q :: (Resource.scheme ++ body) ++ (attributeMark ++ [opening]) := by simp
    have hall : front ++ (attributeMark ++ q :: (Resource.scheme ++ body)) ++
        (attributeMark ++ opening :: (quoted (.extResource path) ++ closing :: []) ++ rest) =
          front ++ (attributeMark ++ q :: (Resource.scheme ++ (body ++ attributeMark) ++ opening :: []) ++
            (path ++ closing :: rest)) := by simp [quoted]
    rw [hall, hcut, hsource, plains_append path, List.append_assoc (plains path)]
    rfl

end Reference

namespace Relocation
open Reference

variable {relocation : Relocation} {relocations : List Relocation} {old path a u text : Text}

/-! ### Relocations in a text before an attribute -/

theorem getLast?_destination (hmem : relocation ∈ table) (h : relocation.destination = .moved path) :
    path.getLast? = some 's' := by
  simp only [table, List.mem_cons, List.not_mem_nil, or_false] at hmem
  rcases hmem with rfl | rfl | rfl <;> cases h <;> rfl

theorem Moves.scheme_prefix (h : Moves old path) (hu : Resource.scheme <+: Text.replaceAll old path u) :
    Resource.scheme <+: u := by
  obtain ⟨rest, hold⟩ := h.old_eq
  obtain ⟨new, hnew⟩ := h.path_eq
  by_cases hfront : old <+: u
  · have hscheme : Resource.scheme <+: old := ⟨'b' :: rest, hold.symm⟩
    exact hscheme.trans hfront
  · cases u with
    | nil => exact hu
    | cons c u =>
      have hhead : path.head? = some 'r' := by
        rw [hnew]
        rfl
      rw [Text.replaceAll, Text.replaceFrom, if_neg (mt List.isPrefixOf_iff_prefix.mp hfront)] at hu
      obtain ⟨hc, htail⟩ := List.cons_prefix_cons.mp hu
      exact List.cons_prefix_cons.mpr ⟨hc, (Text.prefix_replaceAll h.head hhead (by decide)).mp htail⟩

theorem shut_replaceAll (h : Moves old path) (hlast : path.getLast? = some 's') (hshut : Shut a u) :
    Shut (Text.replaceAll old path a) (Text.replaceAll old path u) := by
  intro hmark b hb
  rw [Text.suffix_replaceAll h.last hlast (by decide)] at hmark
  obtain ⟨v, rfl⟩ := h.scheme_prefix ⟨b, hb.symm⟩
  have hquote := hshut hmark v rfl
  cases v with
  | nil => cases hquote
  | cons q v =>
    have hscheme : ¬ old <:+: Resource.scheme := by
      obtain ⟨rest, rfl⟩ := h.old_eq
      intro hinside
      have hlength := hinside.length_le
      rw [List.length_append, List.length_cons] at hlength
      omega
    rw [Text.replaceAll_append_cons h.ne_nil (h.quote_notMem hquote), Text.replaceAll_eq_self hscheme,
      List.append_cancel_left_eq] at hb
    rw [← hb]
    exact hquote

/-- A relocation closes no attribute and leaves none unclosed. -/
theorem unclosed_apply (hmem : relocation ∈ table) (text : Text) :
    Unclosed (relocation.apply text) ↔ Unclosed text := by
  cases hdestination : relocation.destination with
  | removed => rw [apply_eq_self fun path hpath => by rw [hdestination] at hpath; cases hpath]
  | moved path =>
    have hmoves := moves_of_mem_table hmem hdestination
    have happly : ∀ t, relocation.apply t = Text.replaceAll relocation.old path t := fun t => by
      rw [apply, hdestination]
    induction text using attribute_induction with
    | last a ha =>
      rw [happly]
      exact iff_of_false (not_unclosed_of_quoteFree (hmoves.quoteFree_replaceAll ha)) (not_unclosed_of_quoteFree ha)
    | unclosed a q b ha hq hb =>
      have hpath : QuoteFree (Resource.scheme ++ b) := quoteFree_append.mpr ⟨by decide, hb⟩
      have hfree := hmoves.quoteFree_replaceAll hpath
      obtain ⟨b', hscheme, -⟩ := hmoves.replaceAll_scheme b
      rw [happly, ← List.append_assoc, Text.replaceAll_append_cons hmoves.ne_nil (hmoves.quote_notMem hq),
        Text.replaceAll_append_of_last hmoves.last (by decide), hscheme, List.append_assoc, List.append_assoc]
      rw [hscheme] at hfree
      exact iff_of_true (unclosed_open (hmoves.quoteFree_replaceAll ha) hq (quoteFree_append.mp hfree).2)
        (unclosed_open ha hq hb)
    | shut a q u ha hq hshut ih =>
      have hshut' := shut_replaceAll hmoves (getLast?_destination hmem hdestination) hshut
      rw [happly] at ih ⊢
      rw [Text.replaceAll_append_cons hmoves.ne_nil (hmoves.quote_notMem hq),
        unclosed_shut (hmoves.quoteFree_replaceAll ha) hq hshut', unclosed_shut ha hq hshut]
      exact ih
    | found a path' source u ha hspelled ih =>
      obtain ⟨reference, hform, hspelled'⟩ := spelled_apply hmem hspelled
      cases reference with
      | extResource =>
        have hfree : QuoteFree (relocation.apply a) := by
          rw [happly]
          exact hmoves.quoteFree_replaceAll ha
        rw [apply_around hmem hspelled, unclosed_found hfree hspelled', unclosed_found ha hspelled]
        exact ih
      | load => cases hform
      | relativeLoad => cases hform

theorem unclosed_applyAll (hmem : ∀ relocation ∈ relocations, relocation ∈ table) (text : Text) :
    Unclosed (applyAll relocations text).1 ↔ Unclosed text := by
  induction relocations generalizing text with
  | nil => rfl
  | cons relocation relocations ih =>
    obtain ⟨hfirst, hrest⟩ := List.forall_mem_cons.mp hmem
    rw [applyAll_cons_text, ih hrest, unclosed_apply hfirst]

end Relocation
end Relink

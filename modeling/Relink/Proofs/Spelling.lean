import Mathlib.Data.List.TakeWhile
import Relink.Reference.Segment

/-! # How references are spelled

A reference is spelled as a lead (the function's name, the opening parenthesis and blanks, or `path=`), a
quote, the path, another quote and a trail (blanks and the closing parenthesis, or nothing). Neither lead
nor trail has a quote, so the quotes of a text alone decide where references can stand: looking for a
reference at the front of a text finds exactly the spelled ones. -/

namespace Relink
namespace Reference

/-! ### Quotes and blanks -/

/-- A text without quotes. -/
def QuoteFree (text : Text) : Prop := ∀ c ∈ text, isQuote c = false

instance (text : Text) : Decidable (QuoteFree text) := List.decidableBAll _ text

/-- A text of blanks. -/
def Blank (text : Text) : Prop := ∀ c ∈ text, Text.isBlank c = true

theorem quoteFree_nil : QuoteFree [] := fun _ h => absurd h List.not_mem_nil

theorem quoteFree_append {a b : Text} : QuoteFree (a ++ b) ↔ QuoteFree a ∧ QuoteFree b :=
  List.forall_mem_append

theorem quoteFree_cons {c : Char} {a : Text} : QuoteFree (c :: a) ↔ isQuote c = false ∧ QuoteFree a :=
  List.forall_mem_cons

theorem quoteFree_of_suffix {d a : Text} (h : d <:+ a) (ha : QuoteFree a) : QuoteFree d :=
  fun c hc => ha c (h.subset hc)

theorem isQuote_iff {c : Char} : isQuote c = true ↔ c = '\x22' ∨ c = '\x27' := by
  simp only [isQuote, Bool.or_eq_true, decide_eq_true_eq]

theorem isBlank_of_isQuote {c : Char} (h : isQuote c = true) : Text.isBlank c = false := by
  rcases isQuote_iff.mp h with rfl | rfl <;> decide

theorem isWord_of_isQuote {c : Char} (h : isQuote c = true) : Text.isWord c = false := by
  rcases isQuote_iff.mp h with rfl | rfl <;> decide

theorem quoteFree_of_blank {a : Text} (h : Blank a) : QuoteFree a := fun c hc => by
  cases hq : isQuote c
  · rfl
  · have := h c hc
    rw [isBlank_of_isQuote hq] at this
    cases this

/-- The first character with a property stands where it stands. -/
theorem append_cons_inj {p : Char → Bool} {a b u v : Text} {c d : Char} (ha : ∀ x ∈ a, p x = false)
    (hb : ∀ x ∈ b, p x = false) (hc : p c = true) (hd : p d = true) (h : a ++ c :: u = b ++ d :: v) :
    a = b ∧ c = d ∧ u = v := by
  induction a generalizing b with
  | nil =>
    cases b with
    | nil => exact ⟨rfl, List.cons.inj h⟩
    | cons y b =>
      obtain ⟨rfl, -⟩ := List.cons.inj h
      rw [hb c List.mem_cons_self] at hc
      cases hc
  | cons x a ih =>
    cases b with
    | nil =>
      obtain ⟨rfl, -⟩ := List.cons.inj h
      rw [ha x List.mem_cons_self] at hd
      cases hd
    | cons y b =>
      obtain ⟨rfl, htail⟩ := List.cons.inj h
      obtain ⟨rfl, hr⟩ := ih (fun z hz => ha z (List.mem_cons_of_mem _ hz))
        (fun z hz => hb z (List.mem_cons_of_mem _ hz)) htail
      exact ⟨rfl, hr⟩

theorem takeWhile_append_cons {p : Char → Bool} {a u : Text} {c : Char} (ha : ∀ x ∈ a, p x = true)
    (hc : p c = false) : (a ++ c :: u).takeWhile p = a ∧ (a ++ c :: u).dropWhile p = c :: u := by
  rw [List.takeWhile_append_of_pos ha, List.dropWhile_append_of_pos ha, List.takeWhile_cons_of_neg (by simp [hc]),
    List.dropWhile_cons_of_neg (by simp [hc]), List.append_nil]
  exact ⟨rfl, rfl⟩

/-! ### Spellings -/

/-- What introduces a quoted path. -/
inductive Keyword where
  | call (callee : Callee)
  | path
  deriving DecidableEq, Repr

namespace Keyword

/-- Whether a text leads from the keyword to the opening quote. -/
def Leads : Keyword → Text → Prop
  | call callee, lead => ∃ inner, Blank inner ∧ lead = callee.name ++ '(' :: inner
  | path, lead => lead = attributeMark

/-- Whether the keyword is recognised after a character: `preload` has to start a word. -/
def Follows (keyword : Keyword) (previous : Option Char) : Prop :=
  keyword = call .preload → previous.any Text.isWord = false

/-- Whether the keyword is recognised after `front` and not as the end of a longer one: `load` may end a
    word, but not the word `preload` alone. -/
def Begins : Keyword → Text → Prop
  | call .preload, front => front.getLast?.any Text.isWord = false
  | call .load, front => ∀ before, front = before ++ "pre".toList → before.getLast?.any Text.isWord = true
  | path, _ => True

end Keyword

/-- The keyword of a reference. -/
def keyword : Reference → Keyword
  | load callee _ => .call callee
  | relativeLoad callee _ => .call callee
  | extResource _ => .path

namespace Form

/-- What the quoted path starts with. -/
def mark : Form → Text
  | load => Resource.scheme
  | relativeLoad => relativeMark
  | extResource => Resource.scheme

/-- Whether a text leads to the opening quote of some reference of the form. -/
def Leads : Form → Text → Prop
  | extResource, lead => Keyword.path.Leads lead
  | _, lead => ∃ callee, (Keyword.call callee).Leads lead

/-- Whether a text is what follows the closing quote. -/
def Trails : Form → Text → Prop
  | extResource, trail => trail = []
  | _, trail => ∃ outer, Blank outer ∧ trail = outer ++ [')']

theorem leads_iff {form : Form} {lead : Text} : form.Leads lead ↔
    form ≠ .extResource ∧ (∃ callee, (Keyword.call callee).Leads lead) ∨ form = .extResource ∧ lead = attributeMark := by
  cases form <;> simp [Leads, Keyword.Leads]

theorem trails_iff {form : Form} {trail : Text} : form.Trails trail ↔
    form ≠ .extResource ∧ (∃ outer, Blank outer ∧ trail = outer ++ [')']) ∨ form = .extResource ∧ trail = [] := by
  cases form <;> simp [Trails]

end Form

/-- What stands between the quotes. -/
def quoted : Reference → Text
  | load _ path => path
  | relativeLoad _ path => relativeMark ++ path
  | extResource path => path

theorem quoted_eq_path {reference : Reference} (h : reference.form ≠ .relativeLoad) :
    reference.quoted = reference.path := by
  cases reference with
  | relativeLoad => exact absurd rfl h
  | _ => rfl

/-- Whether the path of a reference can stand between quotes. -/
def Writable (reference : Reference) : Prop :=
  ∃ body, reference.quoted = reference.form.mark ++ body ∧ QuoteFree body ∧ body ≠ []

/-- The texts that spell a reference. -/
inductive Spelled (reference : Reference) : Text → Prop
  | intro {lead trail : Text} {opening closing : Char} (hlead : reference.keyword.Leads lead)
      (hopening : isQuote opening = true) (hwritable : reference.Writable) (hclosing : isQuote closing = true)
      (htrail : reference.form.Trails trail) :
      Spelled reference (lead ++ opening :: (reference.quoted ++ closing :: trail))

theorem Spelled.writable {reference : Reference} {source : Text} (h : Spelled reference source) :
    reference.Writable := by
  cases h with
  | intro _ _ hwritable => exact hwritable

theorem spelled_attribute {opening closing : Char} {body : Text} (hopening : isQuote opening = true)
    (hbody : QuoteFree body) (hne : body ≠ []) (hclosing : isQuote closing = true) :
    Spelled (.extResource (Resource.scheme ++ body))
      (attributeMark ++ opening :: (Resource.scheme ++ body ++ closing :: [])) :=
  .intro rfl hopening ⟨body, rfl, hbody, hne⟩ hclosing rfl

/-- The texts that can follow the opening quote of a reference of a form. -/
def Continues (form : Form) (u : Text) : Prop :=
  ∃ body closing trail rest, u = form.mark ++ body ++ closing :: (trail ++ rest) ∧ QuoteFree body ∧ body ≠ [] ∧
    isQuote closing = true ∧ form.Trails trail

/-! ### Reading is recognising a spelling -/

@[simp] theorem name_load : Callee.load.name = ['l', 'o', 'a', 'd'] := rfl

@[simp] theorem name_preload : Callee.preload.name = ['p', 'r', 'e', 'l', 'o', 'a', 'd'] := rfl

theorem callee?_eq_some_iff {previous : Option Char} {text rest : Text} {callee : Callee} :
    callee? previous text = some (callee, rest) ↔
      text = callee.name ++ '(' :: rest ∧ (Keyword.call callee).Follows previous := by
  refine ⟨fun h => ⟨eq_of_callee? h, ?_⟩, ?_⟩
  · rintro ⟨⟩
    have ht := eq_of_callee? h
    have ha : after? (Callee.preload.name ++ ['(']) text = some rest :=
      after?_eq_some_iff.mpr (by simpa using ht)
    unfold callee? at h
    rw [ha] at h
    dsimp only at h
    split at h
    · cases h
    · rename_i hw
      simpa using hw
  · rintro ⟨rfl, hf⟩
    cases callee with
    | load => simp [callee?, after?]
    | preload => simp [callee?, after?, hf rfl]

theorem Quotation.read?_eq_some_iff {mark text : Text} {q : Quotation} :
    Quotation.read? mark text = some q ↔
      ∃ opening closing, isQuote opening = true ∧ isQuote closing = true ∧ QuoteFree q.body ∧ q.body ≠ [] ∧
        q.source = opening :: (mark ++ q.body ++ [closing]) ∧ text = q.source ++ q.rest := by
  refine ⟨fun h => ?_, ?_⟩
  · have ht := eq_of_read? h
    unfold read? at h
    split at h
    · cases h
    · rename_i opening u
      split at h
      · rename_i hopening
        split at h
        · cases h
        · rename_i inside hin
          dsimp only at h
          split at h
          · cases h
          · rename_i closing rest hd
            split at h
            · cases h
            · rename_i hne
              cases h
              have hclosing := List.head?_dropWhile_not (!isQuote ·) inside
              rw [hd] at hclosing
              refine ⟨opening, closing, hopening, by simpa using hclosing, fun c hc => ?_, by simpa using hne, rfl, ht⟩
              simpa using List.mem_takeWhile_imp hc
      · cases h
  · obtain ⟨source, body, rest⟩ := q
    dsimp only
    rintro ⟨opening, closing, hopening, hclosing, hbody, hne, rfl, rfl⟩
    have hsplit := takeWhile_append_cons (p := (!isQuote ·)) (a := body) (u := rest) (c := closing)
      (fun c hc => by simp [hbody c hc]) (by simp [hclosing])
    have hafter : after? mark (mark ++ (body ++ closing :: rest)) = some (body ++ closing :: rest) :=
      after?_eq_some_iff.mpr rfl
    simp [read?, hopening, hafter, hsplit, hne]

theorem call?_eq_some_iff {mark text body source rest : Text} {previous : Option Char} {callee : Callee} :
    call? mark previous text = some (callee, body, source, rest) ↔
      ∃ lead opening closing outer, (Keyword.call callee).Leads lead ∧ isQuote opening = true ∧
        isQuote closing = true ∧ QuoteFree body ∧ body ≠ [] ∧ Blank outer ∧
        source = lead ++ opening :: (mark ++ body ++ closing :: (outer ++ [')'])) ∧
        (Keyword.call callee).Follows previous ∧ text = source ++ rest := by
  refine ⟨fun h => ?_, ?_⟩
  · have ht := eq_of_call? h
    simp only [call?, Option.bind_eq_bind, Option.bind_eq_some_iff, Prod.exists] at h
    obtain ⟨callee', inside, hc, q, hq, h⟩ := h
    split at h
    · simp only [Option.some.injEq, Prod.mk.injEq] at h
      obtain ⟨rfl, rfl, rfl, rfl⟩ := h
      obtain ⟨-, hfollows⟩ := callee?_eq_some_iff.mp hc
      obtain ⟨opening, closing, hopening, hclosing, hbody, hne, hs, -⟩ := Quotation.read?_eq_some_iff.mp hq
      refine ⟨_, opening, closing, q.rest.takeWhile Text.isBlank, ⟨inside.takeWhile Text.isBlank, ?_, rfl⟩, hopening,
        hclosing, hbody, hne, ?_, ?_, hfollows, ht⟩
      · exact fun c hc => List.mem_takeWhile_imp hc
      · exact fun c hc => List.mem_takeWhile_imp hc
      · simp [hs]
    · cases h
  · rintro ⟨lead, opening, closing, outer, ⟨inner, hinner, rfl⟩, hopening, hclosing, hbody, hne, houter, rfl,
      hfollows, rfl⟩
    have hinside := takeWhile_append_cons (u := mark ++ body ++ closing :: (outer ++ ')' :: rest)) hinner
      (isBlank_of_isQuote hopening)
    have houtside := takeWhile_append_cons (u := rest) houter (show Text.isBlank ')' = false by decide)
    have hc : callee? previous (callee.name ++ '(' :: (inner ++ opening ::
        (mark ++ body ++ closing :: (outer ++ ')' :: rest)))) =
          some (callee, inner ++ opening :: (mark ++ body ++ closing :: (outer ++ ')' :: rest))) :=
      callee?_eq_some_iff.mpr ⟨rfl, hfollows⟩
    have hq : Quotation.read? mark (opening :: (mark ++ body ++ closing :: (outer ++ ')' :: rest))) =
        some ⟨opening :: (mark ++ body ++ [closing]), body, outer ++ ')' :: rest⟩ :=
      Quotation.read?_eq_some_iff.mpr ⟨opening, closing, hopening, hclosing, hbody, hne, rfl, by simp⟩
    simp only [List.append_assoc, List.cons_append, List.nil_append] at hc hq hinside houtside ⊢
    simp [call?, hc, hq, hinside, houtside]

/-- A reference of a form is found at the front of a text when the text starts with a spelling of it that
    is recognised after the character before. -/
theorem hit?_eq_some_iff {form : Form} {previous : Option Char} {text : Text} {hit : Hit} :
    hit? form previous text = some hit ↔
      hit.reference.form = form ∧ Spelled hit.reference hit.source ∧ hit.reference.keyword.Follows previous ∧
        text = hit.source ++ hit.rest := by
  obtain ⟨reference, source, rest⟩ := hit
  dsimp only
  refine ⟨fun h => ?_, ?_⟩
  · cases form with
    | load =>
      obtain ⟨⟨callee, body, _, _⟩, hc, he⟩ := Option.map_eq_some_iff.mp h
      cases he
      obtain ⟨lead, opening, closing, outer, hlead, hopening, hclosing, hbody, hne, houter, rfl, hfollows, rfl⟩ :=
        call?_eq_some_iff.mp hc
      exact ⟨rfl, .intro hlead hopening ⟨body, rfl, hbody, hne⟩ hclosing ⟨outer, houter, rfl⟩, hfollows, rfl⟩
    | relativeLoad =>
      obtain ⟨⟨callee, body, _, _⟩, hc, he⟩ := Option.map_eq_some_iff.mp h
      cases he
      obtain ⟨lead, opening, closing, outer, hlead, hopening, hclosing, hbody, hne, houter, rfl, hfollows, rfl⟩ :=
        call?_eq_some_iff.mp hc
      exact ⟨rfl, .intro hlead hopening ⟨body, rfl, hbody, hne⟩ hclosing ⟨outer, houter, rfl⟩, hfollows, rfl⟩
    | extResource =>
      have ht := eq_of_hit? h
      simp only [hit?, Option.bind_eq_bind, Option.bind_eq_some_iff, Option.pure_def, Option.some.injEq] at h
      obtain ⟨inside, -, q, hq, he⟩ := h
      obtain ⟨opening, closing, hopening, hclosing, hbody, hne, hs, -⟩ := Quotation.read?_eq_some_iff.mp hq
      cases he
      have hfollows : Keyword.path.Follows previous := fun h => absurd h (by decide)
      exact ⟨rfl, hs ▸ spelled_attribute hopening hbody hne hclosing, hfollows, ht⟩
  · rintro ⟨rfl, ⟨hlead, hopening, ⟨body, hquoted, hbody, hne⟩, hclosing, htrail⟩, hfollows, rfl⟩
    cases reference with
    | load callee path =>
      obtain ⟨outer, houter, rfl⟩ := htrail
      cases (show path = Resource.scheme ++ body from hquoted)
      exact Option.map_eq_some_iff.mpr ⟨_, call?_eq_some_iff.mpr
        ⟨_, _, _, outer, hlead, hopening, hclosing, hbody, hne, houter, rfl, hfollows, rfl⟩, rfl⟩
    | relativeLoad callee path =>
      obtain ⟨outer, houter, rfl⟩ := htrail
      cases (show path = body from List.append_cancel_left hquoted)
      exact Option.map_eq_some_iff.mpr ⟨_, call?_eq_some_iff.mpr
        ⟨_, _, _, outer, hlead, hopening, hclosing, hbody, hne, houter, rfl, hfollows, rfl⟩, rfl⟩
    | extResource path =>
      cases (show path = Resource.scheme ++ body from hquoted)
      cases hlead
      cases htrail
      rename_i opening closing
      have hq : Quotation.read? Resource.scheme (opening :: (Resource.scheme ++ body ++ [closing]) ++ rest) =
          some ⟨opening :: (Resource.scheme ++ body ++ [closing]), body, rest⟩ :=
        Quotation.read?_eq_some_iff.mpr ⟨opening, closing, hopening, hclosing, hbody, hne, rfl, rfl⟩
      simp only [List.append_assoc, List.cons_append, List.nil_append] at hq
      simp [hit?, form, quoted, after?_eq_some_iff.mpr (rfl : attributeMark ++ _ = _), hq]

end Reference
end Relink

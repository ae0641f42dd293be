import Relink.Proofs.Site

/-! # Relocations around a reference

An old path that has a new one starts with the scheme and ends in `s`, and it has no quote. What leads to
the opening quote of a reference has no `s`, and what follows the closing one has nothing of the scheme. So
an old path never reaches over an edge of a reference: the relocations are applied to the texts around a
reference and to its path one by one, and the reference stays one. -/

namespace Relink
open Reference

namespace Text
variable {old new a b : Text}

/-! ### Replacing in two parts of a text -/

/-- Where no occurrence reaches over the place where two texts meet, each is replaced in on its own. -/
theorem replaceFrom_append {skip : Nat} (hskip : skip ≤ a.length)
    (hcross : ∀ u v, old = u ++ v → u ≠ [] → v ≠ [] → u <:+ a → ¬ v <+: b) :
    replaceFrom old new skip (a ++ b) = replaceFrom old new skip a ++ replaceFrom old new 0 b := by
  induction a generalizing skip with
  | nil =>
    have hzero : skip = 0 := Nat.le_zero.mp hskip
    rw [hzero, List.nil_append]
    rfl
  | cons c a ih =>
    have hcross' : ∀ u v, old = u ++ v → u ≠ [] → v ≠ [] → u <:+ a → ¬ v <+: b := fun u v he hu hv hsuffix =>
      hcross u v he hu hv (hsuffix.trans (List.suffix_cons c a))
    cases skip with
    | succ skip =>
      have hle : skip ≤ a.length := Nat.le_of_succ_le_succ hskip
      rw [List.cons_append, replaceFrom, replaceFrom, ih hle hcross']
    | zero =>
      by_cases hfront : old <+: c :: a
      · have hwhole : old <+: c :: (a ++ b) := hfront.trans (List.prefix_append (c :: a) b)
        have hle : old.length - 1 ≤ a.length := by
          have := hfront.length_le
          rw [List.length_cons] at this
          omega
        rw [List.cons_append, replaceFrom, replaceFrom, if_pos (List.isPrefixOf_iff_prefix.mpr hwhole),
          if_pos (List.isPrefixOf_iff_prefix.mpr hfront), ih hle hcross', List.append_assoc]
      · have hwhole : ¬ old <+: c :: (a ++ b) := by
          rintro ⟨rest, he⟩
          have hsplit : old ++ rest = (c :: a) ++ b := he
          rcases List.append_eq_append_iff.mp hsplit with ⟨v, hv, -⟩ | ⟨v, hv, hb⟩
          · exact hfront ⟨v, hv.symm⟩
          · refine hcross (c :: a) v hv (List.cons_ne_nil _ _) ?_ (List.suffix_refl _) ⟨rest, hb.symm⟩
            rintro rfl
            exact hfront ⟨[], by rw [hv, List.append_nil, List.append_nil]⟩
        rw [List.cons_append, replaceFrom, replaceFrom, if_neg (mt List.isPrefixOf_iff_prefix.mp hwhole),
          if_neg (mt List.isPrefixOf_iff_prefix.mp hfront), ih (Nat.zero_le _) hcross', List.cons_append]

theorem replaceAll_append (hcross : ∀ u v, old = u ++ v → u ≠ [] → v ≠ [] → u <:+ a → ¬ v <+: b) :
    replaceAll old new (a ++ b) = replaceAll old new a ++ replaceAll old new b :=
  replaceFrom_append (Nat.zero_le _) hcross

/-- A text without the last character of what is replaced is copied after any other. -/
theorem replaceAll_append_of_last {e : Char} (he : old.getLast? = some e) (hb : e ∉ b) :
    replaceAll old new (a ++ b) = replaceAll old new a ++ b := by
  have hmem : e ∈ old := List.mem_of_getLast? he
  rw [replaceAll_append, replaceAll_eq_self fun h => hb (h.subset hmem)]
  rintro u v rfl - hv - hfront
  refine hb (hfront.subset (List.mem_of_getLast? ?_))
  rw [List.getLast?_append] at he
  cases hlast : v.getLast? with
  | none => exact absurd (List.getLast?_eq_none_iff.mp hlast) hv
  | some d => rwa [hlast, Option.some_or] at he

/-- A text without the first character of what is replaced is copied before any other. -/
theorem replaceAll_append_of_head {s : Char} (hs : old.head? = some s) (ha : s ∉ a) :
    replaceAll old new (a ++ b) = a ++ replaceAll old new b := by
  have hmem : s ∈ old := List.mem_of_head? hs
  rw [replaceAll_append, replaceAll_eq_self fun h => ha (h.subset hmem)]
  rintro u v rfl hu - hsuffix -
  obtain ⟨d, u, rfl⟩ := List.exists_cons_of_ne_nil hu
  rw [← Option.some.inj hs] at ha
  exact ha (hsuffix.subset List.mem_cons_self)

/-- A character that what is replaced does not have separates the texts around it. -/
theorem replaceAll_append_cons {q : Char} (hne : old ≠ []) (hq : q ∉ old) :
    replaceAll old new (a ++ q :: b) = replaceAll old new a ++ q :: replaceAll old new b := by
  have hhead : replaceAll old new ([q] ++ b) = [q] ++ replaceAll old new b := by
    refine replaceAll_append_of_head (List.head?_eq_some_head hne) fun h => hq ?_
    rw [← List.mem_singleton.mp h]
    exact List.head_mem hne
  rw [replaceAll_append, show replaceAll old new (q :: b) = q :: replaceAll old new b from hhead]
  intro u v he _ hv _ hfront
  obtain ⟨d, v, rfl⟩ := List.exists_cons_of_ne_nil hv
  obtain ⟨rfl, -⟩ := List.cons_prefix_cons.mp hfront
  exact hq (he ▸ List.mem_append_right _ List.mem_cons_self)

theorem replaceAll_of_prefix (hne : old ≠ []) : replaceAll old new (old ++ b) = new ++ replaceAll old new b := by
  obtain ⟨s, rest, rfl⟩ := List.exists_cons_of_ne_nil hne
  have hfront : (s :: rest).isPrefixOf (s :: (rest ++ b)) = true :=
    List.isPrefixOf_iff_prefix.mpr (List.prefix_append (s :: rest) b)
  rw [replaceAll, List.cons_append, replaceFrom, if_pos hfront, replaceFrom_skip, List.length_cons,
    Nat.add_sub_cancel, List.drop_left]
  rfl

theorem mem_replaceFrom {skip : Nat} {c : Char} (h : c ∈ replaceFrom old new skip a) : c ∈ new ∨ c ∈ a := by
  induction a generalizing skip with
  | nil => exact Or.inr h
  | cons d a ih =>
    cases skip with
    | succ skip => exact (ih h).imp_right (List.mem_cons_of_mem _)
    | zero =>
      rw [replaceFrom] at h
      split at h
      · rcases List.mem_append.mp h with h | h
        · exact Or.inl h
        · exact (ih h).imp_right (List.mem_cons_of_mem _)
      · rcases List.mem_cons.mp h with rfl | h
        · exact Or.inr List.mem_cons_self
        · exact (ih h).imp_right (List.mem_cons_of_mem _)

theorem replaceAll_ne_nil (hnew : new ≠ []) (ha : a ≠ []) : replaceAll old new a ≠ [] := by
  obtain ⟨c, a, rfl⟩ := List.exists_cons_of_ne_nil ha
  rw [replaceAll, replaceFrom]
  split
  · exact List.append_ne_nil_of_left_ne_nil hnew _
  · exact List.cons_ne_nil _ _

end Text

namespace Relocation

/-! ### The paths of the table -/

/-- What an old path and its new one look like. The two go apart right after the scheme, and the letter that
    the new one has there is in no old path. -/
structure Moves (old path : Text) : Prop where
  old_eq : ∃ rest, old = Resource.scheme ++ 'b' :: rest
  path_eq : ∃ rest, path = Resource.scheme ++ 'V' :: rest
  fresh : 'V' ∉ old
  last : old.getLast? = some 's'
  quoteFree_old : QuoteFree old
  quoteFree_path : QuoteFree path

variable {relocation : Relocation} {old path : Text}

theorem moves_of_mem_table (hmem : relocation ∈ table) (h : relocation.destination = .moved path) :
    Moves relocation.old path := by
  simp only [table, List.mem_cons, List.not_mem_nil, or_false] at hmem
  rcases hmem with rfl | rfl | rfl
  · cases h
    exact ⟨⟨_, rfl⟩, ⟨_, rfl⟩, by decide, by decide, by decide, by decide⟩
  · cases h
    exact ⟨⟨_, rfl⟩, ⟨_, rfl⟩, by decide, by decide, by decide, by decide⟩
  · cases h

namespace Moves

theorem head (h : Moves old path) : old.head? = some 'r' := by
  obtain ⟨rest, rfl⟩ := h.old_eq
  rfl

theorem ne_nil (h : Moves old path) : old ≠ [] := by
  obtain ⟨rest, rfl⟩ := h.old_eq
  exact List.cons_ne_nil _ _

theorem path_ne_nil (h : Moves old path) : path ≠ [] := by
  obtain ⟨rest, rfl⟩ := h.path_eq
  exact List.cons_ne_nil _ _

theorem quote_notMem (h : Moves old path) {q : Char} (hq : isQuote q = true) : q ∉ old := fun hmem => by
  have hnot := h.quoteFree_old q hmem
  rw [hq] at hnot
  cases hnot

theorem quoteFree_replaceAll (h : Moves old path) {a : Text} (ha : QuoteFree a) :
    QuoteFree (Text.replaceAll old path a) := fun c hc => by
  rcases Text.mem_replaceFrom hc with hc | hc
  · exact h.quoteFree_path c hc
  · exact ha c hc

/-- What a resource path starts with stays, because an old path that starts inside the scheme starts with it. -/
theorem replaceAll_scheme (h : Moves old path) (body : Text) :
    ∃ body', Text.replaceAll old path (Resource.scheme ++ body) = Resource.scheme ++ body' ∧
      (body ≠ [] → body' ≠ []) := by
  by_cases hfront : old <+: Resource.scheme ++ body
  · obtain ⟨rest, he⟩ := hfront
    obtain ⟨new, hnew⟩ := h.path_eq
    refine ⟨'V' :: new ++ Text.replaceAll old path rest, ?_, fun _ => List.cons_ne_nil _ _⟩
    calc Text.replaceAll old path (Resource.scheme ++ body)
      _ = path ++ Text.replaceAll old path rest := by rw [← he, Text.replaceAll_of_prefix h.ne_nil]
      _ = Resource.scheme ++ 'V' :: new ++ Text.replaceAll old path rest := by rw [← hnew]
      _ = Resource.scheme ++ ('V' :: new ++ Text.replaceAll old path rest) := List.append_assoc _ _ _
  · refine ⟨Text.replaceAll old path body, ?_, Text.replaceAll_ne_nil h.path_ne_nil⟩
    have htail : Text.replaceAll old path ("es://".toList ++ body) = "es://".toList ++ Text.replaceAll old path body :=
      Text.replaceAll_append_of_head h.head (by decide)
    have hscheme : Resource.scheme ++ body = 'r' :: ("es://".toList ++ body) := rfl
    rw [hscheme] at hfront
    rw [hscheme, Text.replaceAll, Text.replaceFrom, if_neg (mt List.isPrefixOf_iff_prefix.mp hfront)]
    exact congrArg ('r' :: ·) htail

theorem replaceAll_relativeMark (h : Moves old path) (body : Text) :
    Text.replaceAll old path (relativeMark ++ body) = relativeMark ++ Text.replaceAll old path body :=
  Text.replaceAll_append_of_head h.head (by decide)

end Moves

end Relocation

namespace Reference

theorem Keyword.s_notMem_of_leads {keyword : Keyword} {lead : Text} (h : keyword.Leads lead) : 's' ∉ lead := by
  cases keyword with
  | call callee =>
    obtain ⟨inner, hinner, rfl⟩ := h
    intro hmem
    rcases List.mem_append.mp hmem with hmem | hmem
    · cases callee <;> exact absurd hmem (by decide)
    · rcases List.mem_cons.mp hmem with hmem | hmem
      · exact absurd hmem (by decide)
      · exact absurd (hinner _ hmem) (by decide)
  | path =>
    cases h
    decide

/-- A reference may be written with another path behind the same mark. -/
theorem exists_of_body (reference : Reference) (body : Text) : ∃ reference' : Reference,
    reference'.form = reference.form ∧ reference'.keyword = reference.keyword ∧
      reference'.quoted = reference.form.mark ++ body := by
  cases reference with
  | load callee => exact ⟨.load callee (Resource.scheme ++ body), rfl, rfl, rfl⟩
  | relativeLoad callee => exact ⟨.relativeLoad callee body, rfl, rfl, rfl⟩
  | extResource => exact ⟨.extResource (Resource.scheme ++ body), rfl, rfl, rfl⟩

end Reference

namespace Relocation
variable {relocation : Relocation} {relocations : List Relocation} {reference : Reference} {source : Text}

/-! ### One relocation -/

theorem apply_eq_self {text : Text} (h : ∀ path, relocation.destination = .moved path → ¬ relocation.old <:+: text) :
    relocation.apply text = text := by
  rw [apply]
  split
  · rename_i path hdestination
    exact Text.replaceAll_eq_self (h path hdestination)
  · rfl

/-- A relocation is applied to the path of a reference and to the texts around the reference. -/
theorem apply_lead (hmem : relocation ∈ table) {keyword : Keyword} {form : Form} {lead trail : Text}
    {opening closing : Char} (hlead : keyword.Leads lead) (hopening : isQuote opening = true)
    (hclosing : isQuote closing = true) (htrail : form.Trails trail) (quoted x y : Text) :
    relocation.apply (x ++ (lead ++ opening :: (quoted ++ closing :: (trail ++ y)))) = relocation.apply x ++
      (lead ++ opening :: (relocation.apply quoted ++ closing :: (trail ++ relocation.apply y))) := by
  unfold apply
  split
  · rename_i path hdestination
    have hmoves := moves_of_mem_table hmem hdestination
    have hr : 'r' ∉ trail := fun hr => (Form.not_mem_of_trails htrail hr).2.2.1 rfl
    rw [← List.append_assoc, Text.replaceAll_append_cons hmoves.ne_nil (hmoves.quote_notMem hopening),
      Text.replaceAll_append_cons hmoves.ne_nil (hmoves.quote_notMem hclosing),
      Text.replaceAll_append_of_last hmoves.last (Keyword.s_notMem_of_leads hlead),
      Text.replaceAll_append_of_head hmoves.head hr, List.append_assoc]
  · rfl

theorem apply_nil (relocation : Relocation) : relocation.apply [] = [] := by
  unfold apply
  split <;> rfl

theorem apply_around (hmem : relocation ∈ table) (hspelled : Spelled reference source) (x y : Text) :
    relocation.apply (x ++ (source ++ y)) = relocation.apply x ++ (relocation.apply source ++ relocation.apply y) := by
  obtain @⟨lead, trail, opening, closing, hlead, hopening, -, hclosing, htrail⟩ := hspelled
  have halone := apply_lead hmem hlead hopening hclosing htrail reference.quoted [] []
  have haround := apply_lead hmem hlead hopening hclosing htrail reference.quoted x y
  simp only [apply_nil, List.nil_append, List.append_nil] at halone
  simp only [halone, List.append_assoc, List.cons_append, haround]

/-- A relocation leaves a reference one of its form. -/
theorem spelled_apply (hmem : relocation ∈ table) (hspelled : Spelled reference source) :
    ∃ reference' : Reference, reference'.form = reference.form ∧ Spelled reference' (relocation.apply source) := by
  obtain @⟨lead, trail, opening, closing, hlead, hopening, hwritable, hclosing, htrail⟩ := hspelled
  obtain ⟨body, hquoted, hbody, hne⟩ := hwritable
  have happly := apply_lead hmem hlead hopening hclosing htrail reference.quoted [] []
  simp only [apply_nil, List.nil_append, List.append_nil] at happly
  rw [happly]
  -- The path keeps its mark and stays a path without quotes.
  have hbody' : ∃ body', relocation.apply reference.quoted = reference.form.mark ++ body' ∧ QuoteFree body' ∧
      body' ≠ [] := by
    unfold apply
    split
    · rename_i path hdestination
      have hmoves := moves_of_mem_table hmem hdestination
      have hfree : QuoteFree (Text.replaceAll relocation.old path reference.quoted) :=
        hmoves.quoteFree_replaceAll (hquoted ▸ quoteFree_append.mpr ⟨Form.quoteFree_mark _, hbody⟩)
      rw [hquoted] at hfree ⊢
      have hmark : ∃ body', Text.replaceAll relocation.old path (reference.form.mark ++ body) =
          reference.form.mark ++ body' ∧ (body ≠ [] → body' ≠ []) := by
        cases reference with
        | load => exact hmoves.replaceAll_scheme body
        | relativeLoad => exact ⟨_, hmoves.replaceAll_relativeMark body, Text.replaceAll_ne_nil hmoves.path_ne_nil⟩
        | extResource => exact hmoves.replaceAll_scheme body
      obtain ⟨body', he, hne'⟩ := hmark
      rw [he] at hfree
      exact ⟨body', he, (quoteFree_append.mp hfree).2, hne' hne⟩
    · exact ⟨body, hquoted, hbody, hne⟩
  obtain ⟨body', he, hfree, hne'⟩ := hbody'
  obtain ⟨reference', hform, hkeyword, hquoted'⟩ := exists_of_body reference body'
  rw [he, ← hquoted']
  rw [← hkeyword] at hlead
  rw [← hform] at htrail hquoted'
  exact ⟨reference', hform, .intro hlead hopening ⟨body', hquoted', hfree, hne'⟩ hclosing htrail⟩

/-! ### The relocations one after the other -/

theorem applyAll_cons_text (relocation : Relocation) (relocations : List Relocation) (text : Text) :
    (applyAll (relocation :: relocations) text).1 = (applyAll relocations (relocation.apply text)).1 := by
  rw [applyAll]
  split
  · rfl
  · rename_i hcontains
    have hnot : ¬ relocation.old <:+: text := fun h => hcontains (Text.contains_iff.mpr h)
    rw [apply_eq_self fun _ _ => hnot]

/-- Relocations are applied to a reference and to the texts around it one by one. -/
theorem applyAll_around (hmem : ∀ relocation ∈ relocations, relocation ∈ table) (hspelled : Spelled reference source)
    (x y : Text) : (applyAll relocations (x ++ (source ++ y))).1 =
      (applyAll relocations x).1 ++ ((applyAll relocations source).1 ++ (applyAll relocations y).1) := by
  induction relocations generalizing reference source x y with
  | nil => rfl
  | cons relocation relocations ih =>
    have hfirst := hmem relocation List.mem_cons_self
    obtain ⟨reference', -, hspelled'⟩ := spelled_apply hfirst hspelled
    simp only [applyAll_cons_text]
    rw [apply_around hfirst hspelled, ih (fun r hr => hmem r (List.mem_cons_of_mem _ hr)) hspelled']

theorem spelled_applyAll (hmem : ∀ relocation ∈ relocations, relocation ∈ table) (hspelled : Spelled reference source) :
    ∃ reference' : Reference, reference'.form = reference.form ∧
      Spelled reference' (applyAll relocations source).1 := by
  induction relocations generalizing reference source with
  | nil => exact ⟨reference, rfl, hspelled⟩
  | cons relocation relocations ih =>
    obtain ⟨reference', hform, hspelled'⟩ := spelled_apply (hmem relocation List.mem_cons_self) hspelled
    obtain ⟨reference'', hform', hspelled''⟩ := ih (fun r hr => hmem r (List.mem_cons_of_mem _ hr)) hspelled'
    rw [applyAll_cons_text]
    exact ⟨reference'', hform'.trans hform, hspelled''⟩

/-- A reference without an old path is left as it is. -/
theorem applyAll_spelled_eq_self (hmem : ∀ relocation ∈ relocations, relocation ∈ table)
    (hspelled : Spelled reference source)
    (h : ∀ relocation ∈ relocations, ∀ path, relocation.destination = .moved path →
      ¬ relocation.old <:+: reference.quoted) : (applyAll relocations source).1 = source := by
  induction relocations with
  | nil => rfl
  | cons relocation relocations ih =>
    have hself : relocation.apply source = source := by
      obtain @⟨lead, trail, opening, closing, hlead, hopening, -, hclosing, htrail⟩ := hspelled
      have happly := apply_lead (hmem relocation List.mem_cons_self) hlead hopening hclosing htrail
        reference.quoted [] []
      rw [apply_eq_self (h relocation List.mem_cons_self)] at happly
      simpa only [apply_nil, List.nil_append, List.append_nil] using happly
    rw [applyAll_cons_text, hself]
    exact ih (fun r hr => hmem r (List.mem_cons_of_mem _ hr)) fun r hr => h r (List.mem_cons_of_mem _ hr)

end Relocation
end Relink

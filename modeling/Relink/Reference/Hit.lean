import Relink.Reference
import Relink.Text.Blank
import Relink.Text.Word

/-! # References at the front of a text

Each form of reference is recognised at the front of a text, given the character before it. There is
never a choice of how far a reference reaches: the path is the whole run of characters up to the next
quote, and blanks may stand only just inside the parentheses of a call. The two quotes may differ, and
the path may span lines. -/

namespace Relink

namespace Reference

/-- Whether a character is a quote. -/
def isQuote (c : Char) : Bool := c = '\x22' || c = '\x27'

/-- A quoted path at the front of a text. -/
structure Quotation where
  /-- The quotation as the text has it. -/
  source : Text
  /-- What stands between the mark and the closing quote. -/
  body : Text
  /-- What follows the closing quote. -/
  rest : Text
  deriving DecidableEq, Repr

namespace Quotation

/-- Reads a quotation that starts with `mark`. -/
def read? (mark : Text) : Text → Option Quotation
  | [] => none
  | opening :: text =>
    if isQuote opening then
      match after? mark text with
      | none => none
      | some text =>
        let body := text.takeWhile (!isQuote ·)
        match text.dropWhile (!isQuote ·) with
        | [] => none
        | closing :: rest =>
          if body.isEmpty then none
          else some ⟨opening :: (mark ++ body ++ [closing]), body, rest⟩
    else none

end Quotation

/-- A reference at the front of a text. -/
structure Hit where
  reference : Reference
  /-- The reference as the text has it. -/
  source : Text
  /-- What follows the reference. -/
  rest : Text
  deriving DecidableEq, Repr

/-- What a relative path starts with. -/
def relativeMark : Text := "./".toList

/-- What an attribute starts with. -/
def attributeMark : Text := "path=".toList

/-- The loading function whose name and opening parenthesis a text starts with. `preload` has to start
    a word, `load` may end one. -/
def callee? (previous : Option Char) (text : Text) : Option (Callee × Text) :=
  match after? (Callee.preload.name ++ ['(']) text with
  | some rest => if previous.any Text.isWord then none else some (.preload, rest)
  | none => (after? (Callee.load.name ++ ['(']) text).map (.load, ·)

/-- Reads a call whose quoted path starts with `mark`: the function, the path after the mark, the call
    as the text has it and what follows it. -/
def call? (mark : Text) (previous : Option Char) (text : Text) :
    Option (Callee × Text × Text × Text) := do
  let (callee, inside) ← callee? previous text
  let quotation ← Quotation.read? mark (inside.dropWhile Text.isBlank)
  match quotation.rest.dropWhile Text.isBlank with
  | ')' :: rest =>
    let source := callee.name ++ '(' :: inside.takeWhile Text.isBlank ++ quotation.source ++
      quotation.rest.takeWhile Text.isBlank ++ [')']
    some (callee, quotation.body, source, rest)
  | _ => none

/-- Reads a reference of a form, given the character before the text. -/
def hit? (form : Form) (previous : Option Char) (text : Text) : Option Hit :=
  match form with
  | .load =>
    (call? Resource.scheme previous text).map fun (callee, body, source, rest) =>
      ⟨.load callee (Resource.scheme ++ body), source, rest⟩
  | .relativeLoad =>
    (call? relativeMark previous text).map fun (callee, body, source, rest) =>
      ⟨.relativeLoad callee body, source, rest⟩
  | .extResource => do
    let quotation ← Quotation.read? Resource.scheme (← after? attributeMark text)
    return ⟨.extResource (Resource.scheme ++ quotation.body), attributeMark ++ quotation.source, quotation.rest⟩

/-! ### What is read is the front of the text -/

theorem Quotation.eq_of_read? {mark text : Text} {q : Quotation} (h : Quotation.read? mark text = some q) :
    text = q.source ++ q.rest := by
  unfold Quotation.read? at h
  split at h
  · cases h
  · split at h
    · split at h
      · cases h
      · rename_i inside hin
        have he := after?_eq_some_iff.mp hin
        have hs := List.takeWhile_append_dropWhile (p := (!isQuote ·)) (l := inside)
        dsimp only at h
        split at h
        · cases h
        · rename_i closing rest hd
          split at h
          · cases h
          · cases h
            rw [hd] at hs
            simp only [he, List.cons_append, List.append_assoc, List.nil_append, hs]
    · cases h

theorem eq_of_callee? {previous : Option Char} {text rest : Text} {callee : Callee}
    (h : callee? previous text = some (callee, rest)) : text = callee.name ++ '(' :: rest := by
  unfold callee? at h
  split at h
  · rename_i inside hin
    split at h
    · cases h
    · cases h
      simpa using after?_eq_some_iff.mp hin
  · obtain ⟨inside, hin, he⟩ := Option.map_eq_some_iff.mp h
    cases he
    simpa using after?_eq_some_iff.mp hin

theorem eq_of_call? {mark : Text} {previous : Option Char} {text : Text} {callee : Callee}
    {body source rest : Text} (h : call? mark previous text = some (callee, body, source, rest)) :
    text = source ++ rest := by
  simp only [call?, Option.bind_eq_bind, Option.bind_eq_some_iff, Prod.exists] at h
  obtain ⟨callee', inside, hc, q, hq, h⟩ := h
  split at h
  · rename_i rest' hd
    simp only [Option.some.injEq, Prod.mk.injEq] at h
    obtain ⟨rfl, -, rfl, rfl⟩ := h
    have hd := hd ▸ List.takeWhile_append_dropWhile (p := Text.isBlank) (l := q.rest)
    have hq := Quotation.eq_of_read? hq ▸ List.takeWhile_append_dropWhile (p := Text.isBlank) (l := inside)
    simp only [eq_of_callee? hc, List.append_assoc, List.cons_append, List.nil_append, hd, hq]
  · cases h

/-- A reference found at the front of a text is the text's front, and the rest follows. -/
theorem eq_of_hit? {form : Form} {previous : Option Char} {text : Text} {hit : Hit}
    (h : hit? form previous text = some hit) : text = hit.source ++ hit.rest := by
  cases form with
  | load =>
    obtain ⟨⟨callee, body, source, rest⟩, hc, rfl⟩ := Option.map_eq_some_iff.mp h
    exact eq_of_call? hc
  | relativeLoad =>
    obtain ⟨⟨callee, body, source, rest⟩, hc, rfl⟩ := Option.map_eq_some_iff.mp h
    exact eq_of_call? hc
  | extResource =>
    simp only [hit?, Option.bind_eq_bind, Option.bind_eq_some_iff, Option.pure_def, Option.some.injEq] at h
    obtain ⟨inside, hin, q, hq, rfl⟩ := h
    rw [after?_eq_some_iff.mp hin, Quotation.eq_of_read? hq]
    simp

theorem source_ne_nil_of_hit? {form : Form} {previous : Option Char} {text : Text} {hit : Hit}
    (h : hit? form previous text = some hit) : hit.source ≠ [] := by
  cases form with
  | load =>
    obtain ⟨⟨callee, body, source, rest⟩, hc, rfl⟩ := Option.map_eq_some_iff.mp h
    simp only [call?, Option.bind_eq_bind, Option.bind_eq_some_iff, Prod.exists] at hc
    obtain ⟨callee', inside, -, q, -, hc⟩ := hc
    split at hc
    · simp only [Option.some.injEq, Prod.mk.injEq] at hc
      simp [← hc.2.2.1]
    · cases hc
  | relativeLoad =>
    obtain ⟨⟨callee, body, source, rest⟩, hc, rfl⟩ := Option.map_eq_some_iff.mp h
    simp only [call?, Option.bind_eq_bind, Option.bind_eq_some_iff, Prod.exists] at hc
    obtain ⟨callee', inside, -, q, -, hc⟩ := hc
    split at hc
    · simp only [Option.some.injEq, Prod.mk.injEq] at hc
      simp [← hc.2.2.1]
    · cases hc
  | extResource =>
    simp only [hit?, Option.bind_eq_bind, Option.bind_eq_some_iff, Option.pure_def, Option.some.injEq] at h
    obtain ⟨inside, -, q, -, rfl⟩ := h
    simp [attributeMark]

end Reference

end Relink

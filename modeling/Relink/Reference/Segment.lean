import Relink.Reference.Hit

/-! # Segments

Looking for the references of one form cuts a text into segments: references, found from the left and
without overlaps, and single characters between them. Every segment keeps its own text, so the
segments put together give the text back. -/

namespace Relink

/-- A part of a text. -/
inductive Segment where
  /-- A character outside the references. -/
  | plain (c : Char)
  /-- A reference, as the text has it. -/
  | found (reference : Reference) (source : Text)
  deriving DecidableEq, Repr

namespace Segment

open Reference (Form hit? eq_of_hit? source_ne_nil_of_hit?)

/-- The part of the text that a segment stands for. -/
def source : Segment → Text
  | plain c => [c]
  | found _ source => source

/-- The reference that a segment holds. -/
def reference? : Segment → Option Reference
  | plain _ => none
  | found reference _ => some reference

/-- Cuts a text after `skip` characters that belong to the segment before. -/
def cutFrom (form : Reference.Form) (skip : Nat) (previous : Option Char) : Text → List Segment
  | [] => []
  | c :: text =>
    match skip with
    | skip + 1 => cutFrom form skip (some c) text
    | 0 =>
      match Reference.hit? form previous (c :: text) with
      | some hit => found hit.reference hit.source :: cutFrom form (hit.source.length - 1) (some c) text
      | none => plain c :: cutFrom form 0 (some c) text

/-- Cuts a text at its references of one form. -/
def cut (form : Reference.Form) (text : Text) : List Segment := cutFrom form 0 none text

theorem flatMap_source_cutFrom (form : Form) (skip : Nat) (previous : Option Char) (text : Text) :
    (cutFrom form skip previous text).flatMap source = text.drop skip := by
  induction text generalizing skip previous with
  | nil => simp [cutFrom]
  | cons c text ih =>
    cases skip with
    | succ skip => rw [cutFrom, ih, List.drop_succ_cons]
    | zero =>
      rw [cutFrom]
      split
      · rename_i hit h
        have he := eq_of_hit? h
        rw [List.flatMap_cons, ih, source, List.drop_zero]
        cases hs : hit.source with
        | nil => exact absurd hs (source_ne_nil_of_hit? h)
        | cons d source =>
          rw [hs] at he
          obtain ⟨rfl, rfl⟩ := List.cons.inj he
          simp
      · rw [List.flatMap_cons, ih]
        rfl

/-- The segments put together give the text back. -/
theorem flatMap_source_cut (form : Form) (text : Text) : (cut form text).flatMap source = text :=
  flatMap_source_cutFrom form 0 none text

end Segment

end Relink

/-! # Text

A text is a list of characters. This file holds what the rest of the library does with texts that is
not peculiar to references: removing a literal from the front, finding and replacing every occurrence
of a literal, splitting at a separator and joining again, and writing a number. -/

namespace Relink

/-- A text, character by character. -/
abbrev Text := List Char

/-- A file's content or a file name as the file system stores it. -/
abbrev Bytes := List UInt8

/-- What follows `literal` in a list that starts with it. -/
def after? {α : Type} [DecidableEq α] : (literal list : List α) → Option (List α)
  | [], list => some list
  | _ :: _, [] => none
  | a :: literal, b :: list => if a = b then after? literal list else none

theorem after?_eq_some_iff {α : Type} [DecidableEq α] {literal list rest : List α} :
    after? literal list = some rest ↔ list = literal ++ rest := by
  induction literal generalizing list with
  | nil => simp [after?]
  | cons a literal ih =>
    cases list with
    | nil => simp [after?]
    | cons b list =>
      by_cases h : a = b
      · simp [after?, h, ih]
      · simp [after?, h, Ne.symm h]

/-- The pieces of a list between separators; a list without the separator is one piece. -/
def splitAt {α : Type} [DecidableEq α] (separator : α) : List α → List (List α)
  | [] => [[]]
  | a :: list =>
    if a = separator then [] :: splitAt separator list
    else match splitAt separator list with
      | [] => [[a]]
      | piece :: pieces => (a :: piece) :: pieces

/-- The pieces with a separator between neighbours. -/
def joinWith {α : Type} (separator : List α) : List (List α) → List α
  | [] => []
  | [piece] => piece
  | piece :: pieces => piece ++ separator ++ joinWith separator pieces

theorem joinWith_splitAt {α : Type} [DecidableEq α] (separator : α) (list : List α) :
    joinWith [separator] (splitAt separator list) = list := by
  induction list with
  | nil => rfl
  | cons a list ih =>
    by_cases h : a = separator
    · subst h
      cases hs : splitAt a list with
      | nil =>
        rw [hs] at ih
        simp only [joinWith] at ih
        subst ih
        simp [splitAt] at hs
      | cons piece pieces =>
        rw [hs] at ih
        simp [splitAt, hs, joinWith, ih]
    · cases hs : splitAt separator list with
      | nil =>
        rw [hs] at ih
        simp only [joinWith] at ih
        subst ih
        simp [splitAt] at hs
      | cons piece pieces =>
        rw [hs] at ih
        simp only [splitAt, h, ↓reduceIte, hs]
        cases pieces with
        | nil => simpa [joinWith] using ih
        | cons next pieces => simpa [joinWith] using ih

theorem splitAt_ne_nil {α : Type} [DecidableEq α] (separator : α) (list : List α) :
    splitAt separator list ≠ [] := by
  cases list with
  | nil => simp [splitAt]
  | cons a list =>
    unfold splitAt
    split
    · simp
    · split <;> simp

namespace Text

/-- Whether `literal` occurs in a text. -/
def contains (literal : Text) : Text → Bool
  | [] => literal.isEmpty
  | c :: text => literal.isPrefixOf (c :: text) || contains literal text

/-- Drops `skip` characters, then copies the text with each occurrence of `old` replaced by `new`,
    from the left and without overlaps. -/
def replaceFrom (old new : Text) : (skip : Nat) → Text → Text
  | _, [] => []
  | skip + 1, _ :: text => replaceFrom old new skip text
  | 0, c :: text =>
    if old.isPrefixOf (c :: text) then new ++ replaceFrom old new (old.length - 1) text
    else c :: replaceFrom old new 0 text

/-- The text with each occurrence of the nonempty `old` replaced by `new`, from the left and without
    overlaps. -/
def replaceAll (old new text : Text) : Text := replaceFrom old new 0 text

/-- A number in decimal digits. -/
def ofNat (n : Nat) : Text := Nat.toDigits 10 n

theorem contains_iff {literal text : Text} : contains literal text = true ↔ literal <:+: text := by
  induction text with
  | nil => simp [contains, List.isEmpty_iff]
  | cons c text ih => simp [contains, ih, List.infix_cons_iff]

theorem replaceFrom_skip (old new : Text) (skip : Nat) (text : Text) :
    replaceFrom old new skip text = replaceFrom old new 0 (text.drop skip) := by
  induction text generalizing skip with
  | nil => simp [replaceFrom]
  | cons c text ih =>
    cases skip with
    | zero => rfl
    | succ skip => rw [replaceFrom, ih, List.drop_succ_cons]

theorem replaceAll_eq_self {old new text : Text} (h : ¬ old <:+: text) : replaceAll old new text = text := by
  induction text with
  | nil => rfl
  | cons c text ih =>
    simp only [List.infix_cons_iff, not_or] at h
    unfold replaceAll replaceFrom
    rw [if_neg (by simpa using h.1)]
    exact congrArg _ (ih h.2)

end Text

end Relink

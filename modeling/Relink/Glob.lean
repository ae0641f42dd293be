import Relink.Text.Utf8

/-! # Globs

A glob is a pattern for relative paths. A question mark stands for one byte and a star for any run of
bytes, neither of them for a slash; a set in square brackets stands for one of its bytes; alternatives
stand in braces. Two stars that fill a component stand for any number of components. A backslash takes
the next character as it is. -/

namespace Relink

/-- A part of a glob. -/
inductive Token where
  /-- This character. -/
  | literal (c : Char)
  /-- One byte other than a slash. -/
  | any
  /-- Any bytes other than slashes. -/
  | star
  /-- Nothing, a slash, or anything that ends in a slash: two stars at the start. -/
  | leading
  /-- A slash and anything after it: two stars at the end. -/
  | trailing
  /-- A slash, or anything between two slashes: two stars in the middle. -/
  | between
  /-- One byte in, or if `negated` outside, the ranges. -/
  | oneOf (negated : Bool) (ranges : List (Char × Char))
  /-- One of the alternatives; those that are empty do not count. -/
  | choice (branches : List (List Token))

/-- A pattern for relative paths. -/
abbrev Glob := List Token

namespace Glob

/-- Why a text is no glob. -/
inductive Error where
  /-- A set without its closing bracket. -/
  | unclosedSet
  /-- A range that ends before it starts. -/
  | invalidRange (first last : Char)
  /-- A closing brace that nothing opened. -/
  | unopenedChoice
  /-- An opening brace that nothing closes. -/
  | unclosedChoice
  /-- A backslash at the end. -/
  | danglingEscape
  deriving DecidableEq, Repr

namespace Error

/-- The words for an error. -/
def message : Error → Text
  | unclosedSet => "unclosed character class; missing ']'".toList
  | invalidRange first last => "invalid range; '".toList ++ [first] ++ "' > '".toList ++ [last] ++ "'".toList
  | unopenedChoice =>
    "unopened alternate group; missing '\x7b' (maybe escape '\x7d' with '[\x7d]'?)".toList
  | unclosedChoice =>
    "unclosed alternate group; missing '\x7d' (maybe escape '\x7b' with '[\x7b]'?)".toList
  | danglingEscape => "dangling '\\'".toList

end Error

end Glob

end Relink

import Relink.Glob.Expression

/-! # Globs that are used together

Globs that are used together are sorted by how they are looked for. A plain glob, which is a name, a
path or an extension, is compared. One that ends in an extension is looked for among the names with
that extension by an expression of its own, and all others by their expressions in common. No
expression may be nested too deep. -/

namespace Relink.Glob

/-- How deep an expression may be nested. -/
def depthLimit : Nat := 250

/-- Whether a token is a character. -/
def isLiteral : Token → Bool
  | .literal _ => true
  | _ => false

/-- Whether a token is a character of an extension after its dot. -/
def isOfExtension : Token → Bool
  | .literal c => c ≠ '.' && c ≠ '/'
  | _ => false

/-- Whether a glob is a name, a path or an extension, so that it is looked for without an expression. -/
def isPlain : Glob → Bool
  | .leading :: .star :: .literal '.' :: tokens => tokens.all isOfExtension
  | [.leading] => false
  | .leading :: tokens => tokens.all isLiteral
  | [] => false
  | tokens =>
    match tokens.getLast? with
    | some .trailing => tokens.dropLast.all isLiteral
    | _ => tokens.all isLiteral

/-- Whether tokens, the last one first, end in a dot and characters other than slashes. -/
def endsInExtension : List Token → Bool
  | .literal c :: tokens => c = '.' || (c ≠ '/' && endsInExtension tokens)
  | _ => false

/-- Whether the expression of a glob is nested too deep. -/
def isTooDeep (glob : Glob) : Bool := glob.depth > depthLimit

/-- Which of the globs that are used together is nested too deep. -/
inductive Overrun where
  /-- One that ends in an extension, whose expression this is. -/
  | withExtension (expression : Text)
  /-- The one at this position among those that are looked for in common. -/
  | atPosition (position : Nat)
  deriving DecidableEq, Repr

namespace Overrun

/-- The words for a glob that is nested too deep. -/
def message : Overrun → Text
  | withExtension expression =>
    "error parsing glob '".toList ++ expression ++ "': error parsing pattern 0".toList
  | atPosition position => "error parsing pattern ".toList ++ Text.ofNat position

end Overrun

/-- The glob nested too deep that is met first; those that end in an extension are met before others. -/
def overrun? (globs : List Glob) : Option Overrun :=
  let (extensions, others) := (globs.filter fun glob => !glob.isPlain).partition (endsInExtension ·.reverse)
  match extensions.find? isTooDeep with
  | some glob => some (.withExtension glob.written)
  | none => (others.findIdx? isTooDeep).map .atPosition

end Relink.Glob

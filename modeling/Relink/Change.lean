import Relink.Text.Quoted
import Relink.Resource

/-! # Change records

A record tells which reference was found and what became of it. -/

namespace Relink

namespace Change

/-- How the reference was written. -/
inductive Kind where
  /-- A path of the relocation table, anywhere in the text. -/
  | hardcoded
  /-- A call of `load` or `preload` with a resource path. -/
  | load
  /-- A call of `load` or `preload` with a path that starts with `./`. -/
  | relativeLoad
  /-- An attribute `path` with a resource path. -/
  | extResource
  deriving DecidableEq, Repr

/-- What became of the reference. -/
inductive Outcome where
  /-- It was replaced by this path. -/
  | replaced (path : Text)
  /-- It was left alone, because these candidates share the best rank. -/
  | ambiguous (paths : List Text)
  /-- It was left alone, although its target is gone. -/
  | deprecated
  deriving DecidableEq, Repr

/-- The text of an outcome in the log. -/
def Outcome.display : Outcome → Text
  | replaced path => "-> ".toList ++ path
  | ambiguous paths => "AMBIGUOUS among: ".toList ++ Text.quotedList paths
  | deprecated => "WARN: deprecated; no replacement set".toList

/-- What a record's key starts with. -/
def Kind.label : Kind → Text
  | hardcoded => "hardcoded:".toList
  | load => "preload:".toList
  | relativeLoad => "preload:./".toList
  | extResource => "ext:".toList

end Change

/-- One reference that was repaired or flagged. -/
structure Change where
  kind : Change.Kind
  /-- The path as the text had it. -/
  path : Text
  outcome : Change.Outcome
  deriving DecidableEq, Repr

namespace Change

/-- The reference's key in the log. -/
def key (change : Change) : Text := change.kind.label ++ change.path

/-- The record's line in the log. -/
def display (change : Change) : Text := change.key ++ [' '] ++ change.outcome.display

/-- Whether the text was left as it was. -/
def isWarning (change : Change) : Bool :=
  match change.outcome with
  | .replaced _ => false
  | _ => true

end Change

end Relink

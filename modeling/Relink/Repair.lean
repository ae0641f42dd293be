import Relink.Index
import Relink.Relocation
import Relink.Reference.Segment

/-! # Repair

A text is repaired in four stages, each reading what the one before it wrote: the relocations, then
the references of each form. A reference is redirected when its name leads to one candidate that it does
not lead to already, and recorded as ambiguous when its name is. All else is copied as it stands. -/

namespace Relink

/-- What becomes of a reference. -/
inductive Verdict where
  /-- It stays and is not recorded. -/
  | keep
  /-- It stays and is recorded with the candidates that share the best rank. -/
  | flag (candidates : List Text)
  /-- It is made to lead to `target`. -/
  | redirect (target : Text)
  deriving DecidableEq, Repr

namespace Verdict

/-- What is recorded of a verdict. -/
def outcome? : Verdict → Option Change.Outcome
  | keep => none
  | flag candidates => some (.ambiguous candidates)
  | redirect target => some (.replaced target)

end Verdict

/-- A repaired text with the records made on the way. -/
structure Repaired where
  text : Text
  changes : List Change
  deriving DecidableEq, Repr

namespace Repaired

/-- Whether the text differs from `source`, which was repaired. -/
def isModified (result : Repaired) (source : Text) : Bool := decide (result.text ≠ source)

end Repaired

namespace Index

/-- Whether the name of a reference is looked up: an attribute may name a resource of any kind, so its
    name needs an indexable extension. -/
def considers : Reference → Bool
  | .extResource path => Resource.hasIndexableExtension (Resource.basename path)
  | _ => true

/-- What becomes of a reference. -/
def verdict (index : Index) (reference : Reference) : Verdict :=
  if considers reference then
    match index.resolve reference.name with
    | .unique target => if reference.leadsTo target then .keep else .redirect target
    | .ambiguous candidates => .flag candidates
    | .notFound => .keep
  else .keep

/-- The text of a segment after the repair of its reference. -/
def replacement (index : Index) : Segment → Text
  | .plain c => [c]
  | .found reference source =>
    match index.verdict reference with
    | .redirect target => reference.redirected target
    | _ => source

/-- The record made of a segment. -/
def change? (index : Index) (segment : Segment) : Option Change := do
  let reference ← segment.reference?
  let outcome ← (index.verdict reference).outcome?
  return ⟨reference.kind, reference.path, outcome⟩

/-- Repairs the references of one form. -/
def repairForm (index : Index) (form : Reference.Form) (text : Text) : Repaired :=
  let segments := Segment.cut form text
  ⟨segments.flatMap index.replacement, segments.filterMap index.change?⟩

/-- Repairs a text. -/
def repair (index : Index) (text : Text) : Repaired :=
  let (moved, relocations) := Relocation.applyAll Relocation.table text
  let loads := index.repairForm .load moved
  let relativeLoads := index.repairForm .relativeLoad loads.text
  let extResources := index.repairForm .extResource relativeLoads.text
  ⟨extResources.text, relocations ++ loads.changes ++ relativeLoads.changes ++ extResources.changes⟩

end Index

end Relink

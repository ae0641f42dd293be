import Relink.Toml.Moment
import Relink.Toml.Number

/-! # Configuration files

A file is a sequence of lines: assignments, headers of tables, and lines that hold at most a comment.
A header in single brackets opens a table that has no header yet, one in double brackets adds a table
to a list. A dotted name leads through tables that only dotted names have made. -/

namespace Relink.Toml

/-! ### Assignments -/

/-- Follows the names before the last one of a dotted name and changes the items that they lead to. A
    name on the way that stands for nothing becomes a table. The change is told whether the items
    belong to a dotted table. -/
def alongDots (change : (isDotted : Bool) → Items → Option Items) (isDotted : Bool) :
    List Text → Items → Option Items
  | [], items => change isDotted items
  | name :: names, items =>
    match items.find? name with
    | none => (alongDots change true names []).map fun inner => items.set name (.table .dotted inner)
    | some (.table .header _) => none
    | some (.table origin inner) =>
      (alongDots change (origin = .dotted) names inner).map fun inner => items.set name (.table origin inner)
    | some (.tables (inner :: others)) =>
      (alongDots change false names inner).map fun inner => items.set name (.tables (inner :: others))
    | some _ => none

/-- Assigns a value to a name, which may not stand for anything yet. A dotted name may add only to a
    table that dotted names have made. -/
def assign (items : Items) (before : List Text) (last : Text) (value : Value) : Option Items :=
  alongDots
    (fun isDotted items =>
      if isDotted = before.isEmpty ∨ (items.find? last).isSome then none
      else some (items.set last (.value value)))
    false before items

/-! ### Values -/

/-- Whether a character ends a number, a date or a word. -/
def isDelimiter (c : Char) : Bool := isSpace c || c ∈ ['\n', '\r', ',', ']', '\x7d', '#']

/-- The value that a text without delimiters writes. -/
def scalar? (text : Text) : Option Value :=
  if text = "true".toList then some (.boolean true)
  else if text = "false".toList then some (.boolean false)
  else if isMoment text then some (.moment text)
  else if isFloat text then some (.float text)
  else (integer? text).map .integer

/-- Reads a number, a date or a word; a date and a time may have one space between them. -/
def scalarAt? (text : Text) : Option (Value × Text) := do
  let first := text.takeWhile (!isDelimiter ·)
  let rest := text.dropWhile (!isDelimiter ·)
  let joined := first ++ ' ' :: (rest.drop 1).takeWhile (!isDelimiter ·)
  if rest.head? = some ' ' ∧ date? first = some [] ∧ isMoment joined then
    return (.moment joined, (rest.drop 1).dropWhile (!isDelimiter ·))
  else
    return (← scalar? first, rest)

mutual

/-- Reads a value that lies in `depth` arrays and inline tables. -/
def value? (fuel depth : Nat) (text : Text) : Option (Value × Text) :=
  match fuel with
  | 0 => none
  | fuel + 1 =>
    match text with
    | '\x22' :: _ => (string? text).map fun (s, rest) => (.string s, rest)
    | '\x27' :: _ => (string? text).map fun (s, rest) => (.string s, rest)
    | '[' :: text =>
      if depth + 1 ≥ depthLimit then none
      else (elements? fuel (depth + 1) text).map fun (values, rest) => (.array values, rest)
    | '\x7b' :: text =>
      if depth + 1 ≥ depthLimit then none
      else
        match skipSpaces text with
        | '\x7d' :: rest => some (.inlineTable, rest)
        | text => (pairs? fuel (depth + 1) [] text).map fun rest => (.inlineTable, rest)
    | text => scalarAt? text

/-- Reads the elements of an array and its closing bracket. -/
def elements? (fuel depth : Nat) (text : Text) : Option (List Value × Text) :=
  match fuel with
  | 0 => none
  | fuel + 1 =>
    match skipLines text.length text with
    | ']' :: rest => some ([], rest)
    | text => do
      let (value, rest) ← value? fuel depth text
      match skipLines rest.length rest with
      | ']' :: rest => return ([value], rest)
      | ',' :: rest =>
        let (values, rest) ← elements? fuel depth rest
        return (value :: values, rest)
      | _ => none

/-- Reads the assignments of an inline table and its closing brace, after those that made `items`. -/
def pairs? (fuel depth : Nat) (items : Items) (text : Text) : Option Text :=
  match fuel with
  | 0 => none
  | fuel + 1 => do
    let ((before, last), rest) ← name? (depthLimit - 1) text
    let (value, rest) ← value? fuel depth (skipSpaces (← after? ['='] rest))
    let items ← assign items before last value
    match skipSpaces rest with
    | '\x7d' :: rest => return rest
    | ',' :: rest => pairs? fuel depth items rest
    | _ => none

end

/-! ### Headers -/

/-- Follows the names before the last one of a header and changes the items that they lead to. A name
    on the way that stands for nothing becomes a table; one that stands for a list of tables leads to
    the last of them. -/
def alongHeader (change : Items → Option Items) : List Text → Items → Option Items
  | [], items => change items
  | name :: names, items =>
    match items.find? name with
    | none => (alongHeader change names []).map fun inner => items.set name (.table .passage inner)
    | some (.table origin inner) =>
      (alongHeader change names inner).map fun inner => items.set name (.table origin inner)
    | some (.tables (inner :: others)) =>
      (alongHeader change names inner).map fun inner => items.set name (.tables (inner :: others))
    | some _ => none

/-- Opens the table of a header in single brackets: a new one, or one that only lies on the way to
    another. -/
def openTable (last : Text) (items : Items) : Option Items :=
  match items.find? last with
  | none => some (items.set last (.table .header []))
  | some (.table .passage inner) => some (items.set last (.table .header inner))
  | some _ => none

/-- Adds the table of a header in double brackets. -/
def addTable (last : Text) (items : Items) : Option Items :=
  match items.find? last with
  | none => some (items.set last (.tables [[]]))
  | some (.tables all) => some (items.set last (.tables ([] :: all)))
  | some _ => none

/-- Reads a header: whether it has double brackets, its name and the rest. -/
def header? (text : Text) : Option (Bool × (List Text × Text) × Text) :=
  match text with
  | '[' :: '[' :: text => do
    let (name, rest) ← name? (depthLimit - 1) text
    return (true, name, ← after? [']', ']'] rest)
  | '[' :: text => do
    let (name, rest) ← name? (depthLimit - 1) text
    return (false, name, ← after? [']'] rest)
  | _ => none

/-! ### Lines -/

/-- Reads at most `fuel` lines in the table that `header` leads to. -/
def lines (fuel : Nat) (header : List Text) (items : Items) (text : Text) : Option Items :=
  match fuel with
  | 0 => none
  | fuel + 1 =>
    match skipLines text.length text with
    | [] => some items
    | '[' :: text => do
      let (isList, (before, last), rest) ← header? ('[' :: text)
      let items ← alongHeader (if isList then addTable last else openTable last) before items
      lines fuel (before ++ [last]) items (← lineEnd? rest)
    | text => do
      let ((before, last), rest) ← name? (depthLimit - 1) text
      let (value, rest) ← value? (text.length + 1) 0 (skipSpaces (← after? ['='] rest))
      let items ← alongHeader (fun items => assign items before last value) header items
      lines fuel header items (← lineEnd? rest)

/-- The items of a configuration file; a byte order mark at its start does not count. -/
def document? (text : Text) : Option Items :=
  let text := match text with
    | '\uFEFF' :: rest => rest
    | text => text
  lines (text.length + 1) [] [] text

end Relink.Toml

import Relink.Text

/-! # Values of a configuration file

A configuration file in TOML holds values by name. Of a float and of a date or time only the text is kept. -/

namespace Relink.Toml

/-- A value. -/
inductive Value where
  | string (text : Text)
  | integer (n : Int)
  | float (literal : Text)
  | boolean (b : Bool)
  /-- A date, a time or both. -/
  | moment (literal : Text)
  | array (values : List Value)
  | inlineTable

/-- How a table came about. -/
inductive Origin where
  /-- It has a header of its own, or is the whole file. -/
  | header
  /-- It lies on the way to a table with a header. -/
  | passage
  /-- It lies on the way of a dotted key. -/
  | dotted
  deriving DecidableEq, Repr

/-- What a name stands for. -/
inductive Item where
  | value (v : Value)
  | table (origin : Origin) (items : List (Text × Item))
  /-- A table for each header in double brackets, the last one first. -/
  | tables (all : List (List (Text × Item)))

/-- Names with what they stand for. -/
abbrev Items := List (Text × Item)

namespace Items

/-- What a name stands for. -/
def find? (items : Items) (name : Text) : Option Item := items.lookup name

/-- Makes a name stand for something else, or adds it. -/
def set (items : Items) (name : Text) (item : Item) : Items :=
  match items with
  | [] => [(name, item)]
  | (other, old) :: rest => if name = other then (other, item) :: rest else (other, old) :: set rest name item

end Items

end Relink.Toml

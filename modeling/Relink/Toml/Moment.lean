import Relink.Toml.Value

/-! # Dates and times

A date is a year, a month and a day that exist; a time has hours, minutes and seconds, and may have a
fraction; both may be joined, and then have an offset. -/

namespace Relink.Toml

/-- Reads exactly `width` digits. -/
def digits? (width : Nat) (text : Text) : Option (Nat × Text) :=
  let digits := text.take width
  if digits.length = width ∧ digits.all Char.isDigit then
    some (digits.foldl (fun n d => n * 10 + (d.toNat - 0x30)) 0, text.drop width)
  else none

/-- Reads two digits that write a number from `low` to `high`. -/
def twoDigits? (low high : Nat) (text : Text) : Option (Nat × Text) := do
  let (n, rest) ← digits? 2 text
  if low ≤ n ∧ n ≤ high then some (n, rest) else none

/-- Whether a year has a leap day. -/
def isLeap (year : Nat) : Bool := year % 4 = 0 && (year % 100 ≠ 0 || year % 400 = 0)

/-- The number of days in a month. -/
def daysIn (year month : Nat) : Nat :=
  if month = 2 then if isLeap year then 29 else 28
  else if month ∈ [4, 6, 9, 11] then 30
  else 31

/-- Reads a date. -/
def date? (text : Text) : Option Text := do
  let (year, text) ← digits? 4 text
  let (month, text) ← twoDigits? 1 12 (← after? ['-'] text)
  let (_, rest) ← twoDigits? 1 (daysIn year month) (← after? ['-'] text)
  return rest

/-- Reads a time. -/
def time? (text : Text) : Option Text := do
  let (_, text) ← twoDigits? 0 23 text
  let (_, text) ← twoDigits? 0 59 (← after? [':'] text)
  let (_, text) ← twoDigits? 0 60 (← after? [':'] text)
  match text with
  | '.' :: fraction =>
    if fraction.head?.any Char.isDigit then some (fraction.dropWhile Char.isDigit) else none
  | text => some text

/-- Reads an offset. -/
def offset? : Text → Option Text
  | 'Z' :: rest => some rest
  | 'z' :: rest => some rest
  | sign :: text =>
    if sign = '+' ∨ sign = '-' then do
      let (_, text) ← twoDigits? 0 23 text
      let (_, rest) ← twoDigits? 0 59 (← after? [':'] text)
      return rest
    else none
  | [] => none

/-- Whether a text is a time, perhaps with an offset. -/
def isTimeWithOffset (text : Text) : Bool :=
  match time? text with
  | none => false
  | some [] => true
  | some rest => offset? rest = some []

/-- Whether a text is a date, a time or both. -/
def isMoment (text : Text) : Bool :=
  match date? text with
  | none => time? text = some []
  | some [] => true
  | some (delimiter :: rest) => (delimiter = 'T' || delimiter = 't' || delimiter = ' ') && isTimeWithOffset rest

end Relink.Toml

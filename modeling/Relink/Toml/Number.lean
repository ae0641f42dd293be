import Relink.Toml.Lexeme

/-! # Numbers

An integer has sixty-four bits with a sign. It may be written in decimal, with a sign and no zeros in
front, or without a sign in another base. A float has a fraction, an exponent or both. Single
underscores may stand between digits. -/

namespace Relink.Toml

/-- The digits of a text that has single underscores between digits and nothing else. -/
def plainDigits? (isDigit : Char → Bool) : Text → Option Text
  | [] => none
  | [c] => if isDigit c then some [c] else none
  | c :: '_' :: text => if isDigit c then (plainDigits? isDigit text).map (c :: ·) else none
  | c :: text => if isDigit c then (plainDigits? isDigit text).map (c :: ·) else none

/-- The number that digits write in a base. -/
def valueOf (base : Nat) (digits : Text) : Nat :=
  digits.foldl (fun n d => n * base + (hexDigit? d).getD 0) 0

/-- The digits of a whole number without a sign and without zeros in front. -/
def whole? (text : Text) : Option Text := do
  let digits ← plainDigits? Char.isDigit text
  if digits.head? = some '0' ∧ text ≠ ['0'] then none else some digits

/-- Whether a text has a minus in front, and what follows its sign. -/
def signed : Text → Bool × Text
  | '+' :: text => (false, text)
  | '-' :: text => (true, text)
  | text => (false, text)

/-- The number in a base other than ten. -/
def based? (base : Nat) (text : Text) : Option Nat :=
  (plainDigits? (fun c => (hexDigit? c).any (· < base)) text).map (valueOf base)

/-- The integer of 64 bits that a text writes. -/
def integer? (text : Text) : Option Int := do
  let n : Int ←
    match text with
    | '0' :: 'x' :: digits => (based? 16 digits).map Int.ofNat
    | '0' :: 'o' :: digits => (based? 8 digits).map Int.ofNat
    | '0' :: 'b' :: digits => (based? 2 digits).map Int.ofNat
    | text =>
      let (isNegative, text) := signed text
      (whole? text).map fun digits =>
        if isNegative then -Int.ofNat (valueOf 10 digits) else Int.ofNat (valueOf 10 digits)
  if Int64.minValue.toInt ≤ n ∧ n ≤ Int64.maxValue.toInt then some n else none

/-- The parts of a float: whether it has a minus, its digits, and the power of ten that the last of them
    counts. -/
def floatParts? (text : Text) : Option (Bool × Text × Int) := do
  let (isNegative, text) := signed text
  let isExponentMark (c : Char) := c = 'e' || c = 'E'
  let mantissa := text.takeWhile (!isExponentMark ·)
  let exponent : Option Int ←
    match text.dropWhile (!isExponentMark ·) with
    | [] => some none
    | _ :: text =>
      let (isNegative, text) := signed text
      (plainDigits? Char.isDigit text).map fun digits =>
        some (if isNegative then -Int.ofNat (valueOf 10 digits) else Int.ofNat (valueOf 10 digits))
  let digits ← whole? (mantissa.takeWhile (· ≠ '.'))
  match mantissa.dropWhile (· ≠ '.') with
  | [] => exponent.map (isNegative, digits, ·)
  | _ :: fraction => do
    let decimals ← plainDigits? Char.isDigit fraction
    return (isNegative, digits ++ decimals, exponent.getD 0 - decimals.length)

/-- Whether digits, the last of which counts ten to the `power`, write a number that is rounded to
    infinity: at least halfway from the greatest finite number to the next power of two. -/
def overflows (digits : Text) (power : Int) : Bool :=
  let digits := digits.dropWhile (· = '0')
  let magnitude := power + digits.length
  if digits.isEmpty ∨ magnitude < 300 then false
  else if magnitude > 320 then true
  else
    let limit := Nat.pow 2 1024 - Nat.pow 2 970
    let scale := Nat.pow 10 power.natAbs
    if power < 0 then valueOf 10 digits ≥ limit * scale else valueOf 10 digits * scale ≥ limit

/-- Whether a text writes a float. One that is too great is refused, but not one that is too small. -/
def isFloat (text : Text) : Bool :=
  let (_, unsigned) := signed text
  if unsigned = "inf".toList ∨ unsigned = "nan".toList then true
  else
    match floatParts? text with
    | none => false
    | some (isNegative, digits, power) => isNegative || !overflows digits power

end Relink.Toml

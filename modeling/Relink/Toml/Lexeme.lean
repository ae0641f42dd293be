import Relink.Toml.Value

/-! # Blanks, comments, names and strings

The small parts of a configuration file. Each reader takes the text from its place on and returns what
it has read with the rest, or nothing where the text is not as it should be. -/

namespace Relink.Toml

/-- The most parts that a dotted name may have, plus one. -/
def depthLimit : Nat := 80

/-- Whether a character is a space or a tab. -/
def isSpace (c : Char) : Bool := c = ' ' || c = '\t'

/-- Whether a character can stand in a comment or a string: no control character, apart from the tab. -/
def isPlain (c : Char) : Bool := c = '\t' || (c.toNat ≥ 0x20 && c.toNat ≠ 0x7f)

/-- The text without the spaces at its start. -/
def skipSpaces (text : Text) : Text := text.dropWhile isSpace

/-- What follows the end of a line. -/
def newline? : Text → Option Text
  | '\n' :: rest => some rest
  | '\r' :: '\n' :: rest => some rest
  | _ => none

/-- The text without the comment at its start. -/
def skipComment : Text → Text
  | '#' :: rest => rest.dropWhile isPlain
  | text => text

/-- What follows the line that ends after spaces and a comment. -/
def lineEnd? (text : Text) : Option Text :=
  match skipComment (skipSpaces text) with
  | [] => some []
  | text => newline? text

/-- The text without spaces, comments and ends of lines at its start, taking away at most `fuel` of
    them. -/
def skipLines : (fuel : Nat) → Text → Text
  | 0, text => text
  | fuel + 1, text =>
    let text := skipComment (skipSpaces text)
    match newline? text with
    | some rest => skipLines fuel rest
    | none => text

/-! ### Strings -/

/-- The value of a hexadecimal digit. -/
def hexDigit? (c : Char) : Option Nat :=
  if c.isDigit then some (c.toNat - 0x30)
  else if 'a' ≤ c ∧ c ≤ 'f' then some (c.toNat - 0x57)
  else if 'A' ≤ c ∧ c ≤ 'F' then some (c.toNat - 0x37)
  else none

/-- The character whose number the first `width` characters write in hexadecimal. -/
def numbered? (width : Nat) (text : Text) : Option Char := do
  let digits ← (text.take width).mapM hexDigit?
  let n := digits.foldl (fun n d => n * 16 + d) 0
  if digits.length = width ∧ n.isValidChar then some (Char.ofNat n) else none

/-- The character that a text after a backslash stands for, and the number of characters used. -/
def escape? : Text → Option (Char × Nat)
  | 'b' :: _ => some ('\x08', 1)
  | 't' :: _ => some ('\t', 1)
  | 'n' :: _ => some ('\n', 1)
  | 'f' :: _ => some ('\x0c', 1)
  | 'r' :: _ => some ('\r', 1)
  | '\x22' :: _ => some ('\x22', 1)
  | '\\' :: _ => some ('\\', 1)
  | 'u' :: text => (numbered? 4 text).map (·, 5)
  | 'U' :: text => (numbered? 8 text).map (·, 9)
  | _ => none

/-- Reads a string in double quotes on one line after its opening quote, passing over `skip` characters
    that have been used. -/
def basic? (skip : Nat) : Text → Option (Text × Text)
  | [] => none
  | c :: text =>
    match skip with
    | skip + 1 => basic? skip text
    | 0 =>
      if c = '\x22' then some ([], text)
      else if c = '\\' then do
        let (c, used) ← escape? text
        let (value, rest) ← basic? used text
        return (c :: value, rest)
      else if isPlain c then do
        let (value, rest) ← basic? 0 text
        return (c :: value, rest)
      else none

/-- Reads a string in single quotes on one line after its opening quote. -/
def literal? (text : Text) : Option (Text × Text) :=
  match text.dropWhile fun c => isPlain c && c ≠ '\x27' with
  | '\x27' :: rest => some (text.takeWhile fun c => isPlain c && c ≠ '\x27', rest)
  | _ => none

/-- The number of characters in the spaces and ends of lines at the start of a text. -/
def blankLength : Text → Nat
  | ' ' :: text => blankLength text + 1
  | '\t' :: text => blankLength text + 1
  | '\n' :: text => blankLength text + 1
  | '\r' :: '\n' :: text => blankLength text + 2
  | _ => 0

/-- The number of characters to leave out after a backslash at the end of a line. -/
def continuation? (text : Text) : Option Nat :=
  if (newline? (skipSpaces text)).isSome then some (blankLength text) else none

/-- Reads a string of several lines after its three opening quotes, passing over `skip` characters that
    have been used. Up to two quotes may stand before the three that close it. -/
def lines? (quote : Char) (escapes : Bool) (skip : Nat) : Text → Option (Text × Text)
  | [] => none
  | c :: text =>
    match skip with
    | skip + 1 => lines? quote escapes skip text
    | 0 =>
      if c = quote then
        let count := (text.takeWhile (· = quote)).length + 1
        if count < 3 then do
          let (value, rest) ← lines? quote escapes (count - 1) text
          return (List.replicate count quote ++ value, rest)
        else if count < 6 then some (List.replicate (count - 3) quote, text.drop (count - 1))
        else none
      else if c = '\\' ∧ escapes then
        match continuation? text with
        | some used => lines? quote escapes used text
        | none => do
          let (c, used) ← escape? text
          let (value, rest) ← lines? quote escapes used text
          return (c :: value, rest)
      else if c = '\r' then
        match text with
        | '\n' :: _ => lines? quote escapes 0 text
        | _ => none
      else if c = '\n' ∨ isPlain c then do
        let (value, rest) ← lines? quote escapes 0 text
        return (c :: value, rest)
      else none

/-- Reads a string of any kind. -/
def string? (text : Text) : Option (Text × Text) :=
  let afterFirst (text : Text) := (newline? text).getD text
  match text with
  | '\x22' :: '\x22' :: '\x22' :: text => lines? '\x22' true 0 (afterFirst text)
  | '\x27' :: '\x27' :: '\x27' :: text => lines? '\x27' false 0 (afterFirst text)
  | '\x22' :: text => basic? 0 text
  | '\x27' :: text => literal? text
  | _ => none

/-! ### Names -/

/-- Whether a character can stand in a name without quotes. -/
def isBare (c : Char) : Bool := c.isAlphanum || c = '_' || c = '-'

/-- Reads one part of a name. -/
def part? (text : Text) : Option (Text × Text) :=
  match text with
  | '\x22' :: text => basic? 0 text
  | '\x27' :: text => literal? text
  | text =>
    let name := text.takeWhile isBare
    if name.isEmpty then none else some (name, text.dropWhile isBare)

/-- Reads a name of at most `fuel` parts with dots and spaces between them: the parts before the last
    one, and that one. -/
def name? : (fuel : Nat) → Text → Option ((List Text × Text) × Text)
  | 0, _ => none
  | fuel + 1, text => do
    let (part, rest) ← part? (skipSpaces text)
    match skipSpaces rest with
    | '.' :: rest =>
      let ((before, last), rest) ← name? fuel rest
      return ((part :: before, last), rest)
    | rest => return (([], part), rest)

end Relink.Toml

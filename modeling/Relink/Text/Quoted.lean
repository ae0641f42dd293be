import Relink.Text.Utf8
import Relink.Text.Visible

/-! # Quoted text

A quoted text stands between double quotes. Inside, a double quote and a backslash are preceded by a
backslash, the usual control characters have their letter, and every other character that cannot be
shown is written by its number in hexadecimal. In a quoted path, the bytes that belong to no character are
written by their numbers, too. -/

namespace Relink.Text

/-- A character as it stands inside a quoted text. -/
def escape (c : Char) : Text :=
  match c with
  | '\x22' => ['\\', '\x22']
  | '\\' => ['\\', '\\']
  | '\t' => ['\\', 't']
  | '\n' => ['\\', 'n']
  | '\r' => ['\\', 'r']
  | '\x00' => ['\\', '0']
  | c =>
    if isVisible c then [c]
    else ['\\', 'u', '\x7b'] ++ Nat.toDigits 16 c.toNat ++ ['\x7d']

/-- A text between double quotes. -/
def quoted (text : Text) : Text := ['\x22'] ++ text.flatMap escape ++ ['\x22']

/-- Bytes as they stand inside a quoted path, apart from the first `skip`. -/
def escapeFrom : (skip : Nat) → Bytes → Text
  | _, [] => []
  | skip + 1, _ :: bytes => escapeFrom skip bytes
  | 0, b :: bytes =>
    match Utf8.scan .ready (b :: bytes) with
    | some c :: _ => escape c ++ escapeFrom (c.utf8Size - 1) bytes
    | _ => ['\\', 'x'] ++ (Nat.toDigits 16 b.toNat).map Char.toUpper ++ escapeFrom 0 bytes

/-- A path between double quotes. -/
def quotedPath (path : Bytes) : Text := ['\x22'] ++ escapeFrom 0 path ++ ['\x22']

/-- Quoted texts in square brackets, with a comma and a space between neighbours. -/
def quotedList (texts : List Text) : Text :=
  ['['] ++ joinWith [',', ' '] (texts.map quoted) ++ [']']

/-! ### Quoted paths -/

theorem escapeFrom_eq (skip : Nat) (bytes : Bytes) : escapeFrom skip bytes = escapeFrom 0 (bytes.drop skip) := by
  induction skip generalizing bytes with
  | zero => rfl
  | succ skip ih =>
    cases bytes with
    | nil => rfl
    | cons b bytes => exact ih bytes

theorem escapeFrom_encode (text : Text) : escapeFrom 0 (Utf8.encode text) = text.flatMap escape := by
  induction text with
  | nil => rfl
  | cons c text ih =>
    have hencode : Utf8.encode (c :: text) = String.utf8EncodeChar c ++ Utf8.encode text := List.flatMap_cons
    obtain ⟨b, bytes, hbytes⟩ := List.exists_cons_of_ne_nil (String.utf8EncodeChar_ne_nil (c := c))
    have hlength : bytes.length = c.utf8Size - 1 := by
      rw [← String.length_utf8EncodeChar, hbytes]
      rfl
    have hscan : Utf8.scan .ready (b :: (bytes ++ Utf8.encode text)) =
        some c :: Utf8.scan .ready (Utf8.encode text) := by
      rw [← List.cons_append, ← hbytes, Utf8.scan_utf8EncodeChar]
    rw [hencode, hbytes, List.cons_append, escapeFrom, hscan]
    dsimp only
    rw [escapeFrom_eq, List.drop_left' hlength, ih]
    rfl

/-- A path that is a text is quoted as that text is. -/
theorem quotedPath_encode (text : Text) : quotedPath (Utf8.encode text) = quoted text := by
  rw [quotedPath, escapeFrom_encode, quoted]

end Relink.Text

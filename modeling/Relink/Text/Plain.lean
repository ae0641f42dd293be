import Relink.Text

/-! # Plain text

What a user typed is shown on anything but a terminal without what would control a terminal: sequences
that an escape character starts, and control characters apart from blanks. A sequence is dropped up to
the character that ends it. A blank inside a sequence is shown, and so are the characters after it up to
the next control character. -/

namespace Relink.Text

/-- Where a text stands in a control sequence. -/
inductive Mode where
  /-- Outside. -/
  | outside
  /-- After the escape character. -/
  | escape
  /-- After the escape character and a character that announces others. -/
  | escapeMiddle
  /-- In a sequence that a bracket starts; a letter or a sign like it ends it. -/
  | sequence
  /-- At the start of a string for the device. -/
  | deviceStart
  /-- Among the numbers of a string for the device. -/
  | deviceNumbers
  /-- After the numbers of a string for the device. -/
  | deviceMiddle
  /-- In a string that only its own terminator ends. -/
  | string
  /-- In a command for the system, which the bell ends, too. -/
  | command
  deriving DecidableEq, Repr

/-- Whether a character is a blank that is no space. -/
def isControlBlank (c : Char) : Bool := c = '\t' || c = '\n' || c = '\x0c' || c = '\r'

/-- Whether a character is no control character of ASCII, or a blank. -/
def isPlain (c : Char) : Bool := (c.toNat ≥ 0x20 && c.toNat ≠ 0x7f) || isControlBlank c

namespace Mode

/-- The mode after a character of ASCII that is no control character. -/
def afterSign (mode : Mode) (c : Char) : Mode :=
  match mode with
  | outside => outside
  | escape =>
    if c ≤ '/' then escapeMiddle
    else if c = '[' then sequence
    else if c = ']' then command
    else if c = 'P' then deviceStart
    else if c = 'X' ∨ c = '^' ∨ c = '_' then string
    else outside
  | escapeMiddle => if c ≤ '/' then escapeMiddle else outside
  | sequence => if c ≤ '?' then sequence else outside
  | deviceStart => if c ≤ '/' then deviceMiddle else if c ≤ '?' then deviceNumbers else string
  | deviceNumbers => if c ≤ '/' then deviceMiddle else if c ≤ ';' then deviceNumbers else string
  | deviceMiddle => if c ≤ '/' then deviceMiddle else string
  | string => string
  | command => command

/-- The mode after a character. A byte `9c`, also inside a character, ends a string. -/
def after (mode : Mode) (c : Char) : Mode :=
  if c = '\x1b' then escape
  else if c = '\x18' ∨ c = '\x1a' then outside
  else if c.toNat ≥ 0x80 then
    if mode = string ∧ 0x9c ∈ String.utf8EncodeChar c then outside else mode
  else if c.toNat < 0x20 ∨ c.toNat = 0x7f then
    if mode = command ∧ c = '\x07' then outside else mode
  else mode.afterSign c

/-- Whether a character is shown in a mode. -/
def shows (mode : Mode) (c : Char) : Bool :=
  match mode with
  | outside => isPlain c
  | escape | escapeMiddle | sequence => isControlBlank c
  | _ => false

end Mode

/-- The plain text of the rest of a text. When the character before it was shown, what is plain is shown,
    too, and one outside ASCII ends a sequence. -/
def plainFrom (mode : Mode) (shown : Bool) : Text → Text
  | [] => []
  | c :: text =>
    if shown && isPlain c then c :: plainFrom (if c.toNat ≥ 0x80 then .outside else mode) true text
    else if mode.shows c then c :: plainFrom (mode.after c) true text
    else plainFrom (mode.after c) false text

/-- The plain text of a text. -/
def plain (text : Text) : Text := plainFrom .outside false text

/-! ### What is shown -/

theorem isPlain_of_shows {mode : Mode} {c : Char} (h : mode.shows c = true) : isPlain c = true := by
  cases mode <;> simp_all [Mode.shows, isPlain]

theorem isPlain_of_mem_plainFrom {mode : Mode} {shown : Bool} {text : Text} {c : Char}
    (h : c ∈ plainFrom mode shown text) : isPlain c = true := by
  induction text generalizing mode shown with
  | nil => simp [plainFrom] at h
  | cons d text ih =>
    unfold plainFrom at h
    split at h
    · rename_i hd
      rcases List.mem_cons.mp h with rfl | h
      · simp_all
      · exact ih h
    · split at h
      · rename_i hd
        rcases List.mem_cons.mp h with rfl | h
        · exact isPlain_of_shows hd
        · exact ih h
      · exact ih h

theorem isPlain_of_mem_plain {text : Text} {c : Char} (h : c ∈ plain text) : isPlain c = true :=
  isPlain_of_mem_plainFrom h

theorem after_outside_of_isPlain {c : Char} (h : isPlain c = true) : Mode.outside.after c = .outside := by
  unfold Mode.after
  have hescape : c ≠ '\x1b' := by rintro rfl; exact absurd h (by decide)
  simp [hescape, Mode.afterSign]

theorem plainFrom_outside_eq_self {shown : Bool} {text : Text} (h : ∀ c ∈ text, isPlain c = true) :
    plainFrom .outside shown text = text := by
  induction text generalizing shown with
  | nil => rfl
  | cons c text ih =>
    have hc := h c List.mem_cons_self
    have ht : ∀ shown, plainFrom .outside shown text = text :=
      fun shown => ih fun d hd => h d (List.mem_cons_of_mem _ hd)
    cases shown <;> simp [plainFrom, Mode.shows, hc, ht, after_outside_of_isPlain]

/-- A text without control characters is its own plain text. -/
theorem plain_eq_self {text : Text} (h : ∀ c ∈ text, isPlain c = true) : plain text = text :=
  plainFrom_outside_eq_self h

end Relink.Text

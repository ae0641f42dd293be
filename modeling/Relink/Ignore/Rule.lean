import Relink.Glob.Limit
import Relink.Glob.Parser
import Relink.Text.Blank

/-! # Ignore rules

A line of an ignore file is a rule that leaves paths out or, after an exclamation mark, takes them in
again. A slash at the start or inside ties the rule to the folder of the file; otherwise it holds at
any depth. A slash at the end makes it a rule for folders. -/

namespace Relink

/-- What is decided about a path. -/
inductive Decision where
  | leaveOut
  | takeIn
  deriving DecidableEq, Repr

/-- The other decision. -/
def Decision.turned : Decision → Decision
  | leaveOut => takeIn
  | takeIn => leaveOut

namespace Ignore

/-- A rule about paths below a folder. -/
structure Rule where
  glob : Glob
  decision : Decision
  /-- The rule holds for folders only. -/
  onlyFolders : Bool

/-- A line that is no rule, and why. -/
structure Fault where
  line : Text
  error : Glob.Error
  deriving DecidableEq, Repr

namespace Fault

/-- The words for a fault. -/
def message (fault : Fault) : Text :=
  "error parsing glob '".toList ++ fault.line ++ "': ".toList ++ fault.error.message

end Fault

/-- Why patterns are refused. -/
inductive Refusal where
  /-- One of them is no glob. -/
  | badPattern (fault : Fault)
  /-- They cannot be used together. -/
  | overrun (o : Glob.Overrun)
  deriving DecidableEq, Repr

namespace Refusal

/-- The words for a refusal. -/
def message : Refusal → Text
  | badPattern fault => fault.message
  | overrun o => o.message

end Refusal

namespace Rule

/-- A line without the blanks at its end, unless the last of them is a space after a backslash. -/
def trimmed (line : Text) : Text :=
  if ['\\', ' '].isSuffixOf line then line else Text.trimEnd line

/-- What the mark at the start of a line decides, whether a slash after it ties the rule to its folder,
    and the rest of the line. A backslash takes the mark after it as it is. -/
def opening (line : Text) : Decision × Bool × Text :=
  match line with
  | '\\' :: '!' :: rest => (.leaveOut, false, '!' :: rest)
  | '\\' :: '#' :: rest => (.leaveOut, false, '#' :: rest)
  | '!' :: '/' :: rest => (.takeIn, true, rest)
  | '!' :: rest => (.takeIn, false, rest)
  | '/' :: rest => (.leaveOut, true, rest)
  | rest => (.leaveOut, false, rest)

/-- The text of a glob without the slash at its end, nor a backslash before that, and whether there was
    one. -/
def closing (text : Text) : Bool × Text :=
  match text.reverse with
  | '/' :: '\\' :: rest => (true, rest.reverse)
  | '/' :: rest => (true, rest.reverse)
  | _ => (false, text)

/-- The text of a glob for any depth. -/
def anywhere (text : Text) : Text :=
  if text = ['*', '*'] ∨ ['*', '*', '/'].isPrefixOf text then text else ['*', '*', '/'] ++ text

/-- The text of a glob that, when it ends in a folder's content, does not match the folder. -/
def contentOnly (text : Text) : Text :=
  if ['/', '*', '*'].isSuffixOf text then text ++ ['/', '*'] else text

/-- The rule that a line writes, if it writes any: an empty line and one that starts with `#` do not.
    With `lenient`, a bracket without a partner is taken as it is. -/
def ofLine (lenient : Bool) (line : Text) : Except Fault (Option Rule) :=
  if line.head? = some '#' then .ok none
  else
    let line := trimmed line
    if line.isEmpty then .ok none
    else
      let (decision, isTied, text) := opening line
      let (onlyFolders, text) := closing text
      let text := if isTied ∨ '/' ∈ text then text else anywhere text
      match Glob.parse lenient (contentOnly text) with
      | .error error => .error ⟨line, error⟩
      | .ok glob => .ok (some ⟨glob, decision, onlyFolders⟩)

/-- Whether a rule speaks of a path. -/
def applies (rule : Rule) (path : Bytes) (isFolder : Bool) : Bool :=
  (isFolder || !rule.onlyFolders) && rule.glob.isMatch path

end Rule

/-- What the last rule decides that speaks of a path. -/
def decide? (rules : List Rule) (path : Bytes) (isFolder : Bool) : Option Decision :=
  (rules.reverse.find? (·.applies path isFolder)).map (·.decision)

/-- What rules given from outside decide, each of them the other way round. As soon as one of them would
    leave out in an ignore file, every file is left out that none of them speaks of. -/
def override? (rules : List Rule) (path : Bytes) (isFolder : Bool) : Option Decision :=
  match decide? rules path isFolder with
  | some decision => some decision.turned
  | none => if rules.any (·.decision = .leaveOut) && !isFolder then some .leaveOut else none

/-- Why rules cannot be used together. -/
def overrun? (rules : List Rule) : Option Glob.Overrun := Glob.overrun? (rules.map (·.glob))

/-- The rules of patterns given from outside, one by one: each is the line of an ignore file that takes in
    again what the pattern matches. -/
def exclusionsOf : List Text → Except Fault (List Rule)
  | [] => .ok []
  | pattern :: patterns => do
    let rule ← Rule.ofLine false ('!' :: pattern)
    let rules ← exclusionsOf patterns
    return rule.toList ++ rules

/-- The rules of patterns given from outside. -/
def exclusions (patterns : List Text) : Except Refusal (List Rule) :=
  match exclusionsOf patterns with
  | .error fault => .error (.badPattern fault)
  | .ok rules =>
    match overrun? rules with
    | some o => .error (.overrun o)
    | none => .ok rules

end Ignore

end Relink

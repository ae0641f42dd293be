import Relink.Glob.Match

/-! # Globs as regular expressions

A glob that is more than a name, a path or an extension is looked for by a regular expression over
bytes. An expression is written out where it is refused, and refused for the depth of its nesting:
every set, repetition, group, choice and sequence around a byte counts. -/

namespace Relink

/-- A member of a set of bytes. -/
inductive Member where
  | byte (b : UInt8)
  | range (first last : UInt8)
  deriving DecidableEq, Repr

/-- A regular expression over bytes. -/
inductive Expression where
  | byte (b : UInt8)
  | anyByte
  /-- One byte that is, or if `negated` is not, among the members. -/
  | set (negated : Bool) (members : List Member)
  | optional (e : Expression)
  | repeated (e : Expression)
  | sequence (parts : List Expression)
  | group (branches : List Expression)

namespace Expression

/-! ### Writing -/

/-- The characters that mean themselves only after a backslash. -/
def marks : Text := "\\.+*?()|[]\x7b\x7d^$#&-~".toList

/-- A byte as it is written: outside ASCII by its number in hexadecimal. -/
def writtenByte (b : UInt8) : Text :=
  if b < 0x80 then
    let c := Char.ofNat b.toNat
    if c ∈ marks then ['\\', c] else [c]
  else ['\\', 'x'] ++ Nat.toDigits 16 b.toNat

/-- A member of a set as it is written. -/
def writtenMember : Member → Text
  | .byte b => writtenByte b
  | .range first last => writtenByte first ++ ['-'] ++ writtenByte last

mutual

/-- An expression as it is written. -/
def written : Expression → Text
  | byte b => writtenByte b
  | anyByte => ['.']
  | set negated members =>
    ['['] ++ (if negated then ['^'] else []) ++ members.flatMap writtenMember ++ [']']
  | optional e => written e ++ ['?']
  | repeated e => written e ++ ['*']
  | sequence parts => (writtenEach parts).flatten
  | group branches => "(?:".toList ++ joinWith ['|'] (writtenEach branches) ++ [')']

/-- Each of some expressions as it is written. -/
def writtenEach : List Expression → List Text
  | [] => []
  | e :: es => written e :: writtenEach es

end

/-! ### Depth -/

mutual

/-- How deep an expression is nested. What would hold one thing only is that thing. -/
def depth : Expression → Nat
  | byte _ => 0
  | anyByte => 0
  | set _ members => if members.length ≤ 1 then 1 else 2
  | optional e => depth e + 1
  | repeated e => depth e + 1
  | sequence parts => if parts.length ≤ 1 then greatestDepth parts else greatestDepth parts + 1
  | group branches => if branches.length ≤ 1 then greatestDepth branches + 1 else greatestDepth branches + 2

/-- How deep the deepest of some expressions is nested. -/
def greatestDepth : List Expression → Nat
  | [] => 0
  | e :: es => max (depth e) (greatestDepth es)

end

end Expression

namespace Token

/-- A slash. -/
def slashByte : Expression := .byte Path.slash

/-- The members of a set that stand for one of its ranges: from the last byte of its first character to
    the first byte of its last one, and the other bytes of the two. -/
def membersOf (range : Char × Char) : List Member :=
  let first := String.utf8EncodeChar range.1
  let last := String.utf8EncodeChar range.2
  if range.1 = range.2 then first.map .byte
  else
    first.dropLast.map .byte ++
      (match first.getLast?, last.head? with
        | some low, some high => [.range low high]
        | _, _ => []) ++
      last.tail.map .byte

mutual

/-- The expressions, one after the other, that match what a token stands for. -/
def expressions : Token → List Expression
  | literal c => (String.utf8EncodeChar c).map .byte
  | any => [.set true [.byte Path.slash]]
  | star => [.repeated (.set true [.byte Path.slash])]
  | leading => [.group [.optional slashByte, .sequence [.repeated .anyByte, slashByte]]]
  | trailing => [slashByte, .repeated .anyByte]
  | between => [.group [slashByte, .sequence [slashByte, .repeated .anyByte, slashByte]]]
  | oneOf negated ranges => [.set negated (ranges.flatMap membersOf)]
  | choice branches => if allVoid branches then [] else [.group (branchExpressions branches)]

/-- The expressions for the branches of a choice that are not void. -/
def branchExpressions : List (List Token) → List Expression
  | [] => []
  | branch :: branches =>
    if isVoidGlob branch then branchExpressions branches
    else .sequence (expressionsOfAll branch) :: branchExpressions branches

/-- The expressions for tokens, one after the other. -/
def expressionsOfAll : List Token → List Expression
  | [] => []
  | token :: tokens => expressions token ++ expressionsOfAll tokens

end

end Token

namespace Glob

/-- The expressions, one after the other, that match a whole path as a glob does. -/
def expressions : Glob → List Expression
  | [.leading] => [.repeated .anyByte]
  | glob => Token.expressionsOfAll glob

/-- The regular expression of a glob as it is written, anchored at both ends. -/
def written (glob : Glob) : Text :=
  "(?-u)^".toList ++ (Expression.writtenEach glob.expressions).flatten ++ ['$']

/-- How deep the regular expression of a glob is nested; the anchors stand in sequence with the rest. -/
def depth (glob : Glob) : Nat := Expression.greatestDepth glob.expressions + 1

end Glob

end Relink

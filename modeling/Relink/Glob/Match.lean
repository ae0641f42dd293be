import Relink.Glob
import Relink.Path

/-! # Matching globs

A token takes a path to what may be left of it afterwards. A glob matches a path when its tokens, one
after the other, can leave nothing. -/

namespace Relink

namespace Token

/-- What may follow a slash in a path. -/
def afterSlashes : Bytes → List Bytes
  | [] => []
  | b :: path => if b = Path.slash then path :: afterSlashes path else afterSlashes path

/-- What is left when any bytes are dropped. -/
def tails : Bytes → List Bytes
  | [] => [[]]
  | b :: path => (b :: path) :: tails path

/-- What is left when any bytes other than slashes are dropped. -/
def tailsWithin : Bytes → List Bytes
  | [] => [[]]
  | b :: path => if b = Path.slash then [b :: path] else (b :: path) :: tailsWithin path

/-- Whether a range of a set holds a byte. A range goes from the last byte of its first character to the
    first byte of its last one; the other bytes of the two are members, too. -/
def rangeHas (range : Char × Char) (b : UInt8) : Bool :=
  let first := String.utf8EncodeChar range.1
  let last := String.utf8EncodeChar range.2
  if range.1 = range.2 then b ∈ first
  else b ∈ first || b ∈ last || (first.getLast?.any (· ≤ b) && last.head?.any (b ≤ ·))

mutual

/-- Whether a token can stand only for nothing, being made of empty alternatives. -/
def isVoid : Token → Bool
  | choice branches => allVoid branches
  | _ => false

/-- Whether every branch is void. -/
def allVoid : List (List Token) → Bool
  | [] => true
  | branch :: branches => isVoidGlob branch && allVoid branches

/-- Whether every token is void. -/
def isVoidGlob : List Token → Bool
  | [] => true
  | token :: tokens => isVoid token && isVoidGlob tokens

end

mutual

/-- What a token may leave of a path. -/
def leaves : Token → Bytes → List Bytes
  | literal c, path => (after? (String.utf8EncodeChar c) path).toList
  | any, b :: path => if b = Path.slash then [] else [path]
  | any, [] => []
  | star, path => tailsWithin path
  | leading, path => path :: afterSlashes path
  | trailing, b :: path => if b = Path.slash then tails path else []
  | trailing, [] => []
  | between, b :: path => if b = Path.slash then path :: afterSlashes path else []
  | between, [] => []
  | oneOf negated ranges, b :: path => if ranges.any (rangeHas · b) = negated then [] else [path]
  | oneOf .., [] => []
  | choice branches, path => if allVoid branches then [path] else leavesOfSome branches path

/-- What the branches of a choice that are not void may leave of a path. -/
def leavesOfSome : List (List Token) → Bytes → List Bytes
  | [], _ => []
  | branch :: branches, path =>
    (if isVoidGlob branch then [] else leavesOfAll branch [path]) ++ leavesOfSome branches path

/-- What tokens, one after the other, may leave of some paths. -/
def leavesOfAll : List Token → List Bytes → List Bytes
  | [], paths => paths
  | token :: tokens, paths => leavesOfAll tokens (paths.flatMap (leaves token)).eraseDups

end

end Token

namespace Glob

/-- Whether a glob matches a path. Two stars alone match every path. -/
def isMatch (glob : Glob) (path : Bytes) : Bool :=
  match glob with
  | [.leading] => true
  | _ => (Token.leavesOfAll glob [path]).contains []

end Glob

end Relink

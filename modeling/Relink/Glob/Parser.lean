import Relink.Glob

/-! # Reading globs

A glob is read character by character. What has been read is a draft: the tokens of the branch at hand
and, for each brace still open, the tokens before it and the branches before the one at hand. Sets and
stars look ahead and then skip what they have used. -/

namespace Relink.Glob

/-! ### Sets -/

/-- The members of a set read so far, the last one first. -/
structure SetDraft where
  ranges : List (Char × Char)
  /-- No member has been read. -/
  isFirst : Bool
  /-- A dash has been read that makes a range of the last member and the next character. -/
  inRange : Bool

namespace SetDraft

/-- A set of which nothing has been read. -/
def start : SetDraft := ⟨[], true, false⟩

/-- Adds a character that is a member, or the end of a range. -/
def add (draft : SetDraft) (c : Char) : Except Error SetDraft :=
  match draft.inRange, draft.ranges with
  | true, (first, _) :: ranges =>
    if c < first then .error (.invalidRange first c) else .ok ⟨(first, c) :: ranges, false, false⟩
  | _, ranges => .ok ⟨(c, c) :: ranges, false, false⟩

/-- The ranges in order; a dash at the end is a member. -/
def finish (draft : SetDraft) : List (Char × Char) :=
  if draft.inRange then (('-', '-') :: draft.ranges).reverse else draft.ranges.reverse

/-- Reads members up to the closing bracket: the ranges and the number of characters read, or nothing
    when there is no bracket. -/
def read (draft : SetDraft) (used : Nat) : Text → Except Error (Option (List (Char × Char) × Nat))
  | [] => .ok none
  | c :: text =>
    if c = ']' ∧ ¬ draft.isFirst then .ok (some (draft.finish, used + 1))
    else if c = '-' ∧ ¬ draft.isFirst ∧ ¬ draft.inRange then
      read { draft with inRange := true } (used + 1) text
    else
      match draft.add c with
      | .error error => .error error
      | .ok draft => read draft (used + 1) text

end SetDraft

/-- Reads a set after its opening bracket: the token and the number of characters read. -/
def set? (text : Text) : Except Error (Option (Token × Nat)) :=
  match text with
  | c :: rest =>
    if c = '!' ∨ c = '^' then
      (SetDraft.start.read 1 rest).map (·.map fun (ranges, used) => (.oneOf true ranges, used))
    else (SetDraft.start.read 0 text).map (·.map fun (ranges, used) => (.oneOf false ranges, used))
  | [] => .ok none

/-! ### Drafts -/

/-- A brace that is still open. -/
structure OpenChoice where
  /-- The tokens before the brace, the last one first. -/
  before : List Token
  /-- The branches before the one at hand, the last one first. -/
  branches : List (List Token)

/-- What has been read of a glob. -/
structure Draft where
  /-- The tokens of the branch at hand, the last one first. -/
  tokens : List Token
  choices : List OpenChoice
  /-- A bracket without a partner was read, so that every later one is taken as it is. -/
  plainBrackets : Bool

namespace Draft

/-- A glob of which nothing has been read. -/
def start : Draft := ⟨[], [], false⟩

/-- Adds a token to the branch at hand. -/
def push (draft : Draft) (token : Token) : Draft := { draft with tokens := token :: draft.tokens }

/-- Opens a choice. -/
def openChoice (draft : Draft) : Draft :=
  { draft with tokens := [], choices := ⟨draft.tokens, []⟩ :: draft.choices }

/-- Begins the next branch; outside a choice a comma is taken as it is. -/
def nextBranch (draft : Draft) : Draft :=
  match draft.choices with
  | [] => draft.push (.literal ',')
  | choice :: choices =>
    { draft with
      tokens := []
      choices := { choice with branches := draft.tokens.reverse :: choice.branches } :: choices }

/-- Closes a choice. -/
def closeChoice (draft : Draft) : Except Error Draft :=
  match draft.choices with
  | [] => .error .unopenedChoice
  | choice :: choices =>
    .ok { draft with
      tokens := .choice (draft.tokens.reverse :: choice.branches).reverse :: choice.before
      choices := choices }

/-- Puts two stars for any number of components in the place of the token before them, unless that
    already stands for components. -/
def widen (draft : Draft) (token : Token) : Draft :=
  match draft.tokens with
  | .leading :: _ => draft
  | .trailing :: _ => draft
  | _ :: tokens => { draft with tokens := token :: tokens }
  | [] => draft

/-- Reads a star, given the character before it and what follows it; also the number of characters
    used after it. -/
def star (draft : Draft) (previous : Option Char) (text : Text) : Draft × Nat :=
  match text with
  | '*' :: text =>
    let twoStars := ((draft.push .star).push .star, 1)
    if draft.tokens.isEmpty then
      match text with
      | [] => (draft.push .leading, 1)
      | '/' :: _ => (draft.push .leading, 2)
      | _ => twoStars
    else if previous ≠ some '/' ∧ (draft.choices.isEmpty ∨ previous ≠ some ',' ∧ previous ≠ some '\x7b') then
      twoStars
    else
      match text with
      | [] => (draft.widen .trailing, 1)
      | '/' :: _ => (draft.widen .between, 2)
      | c :: _ =>
        if (c = ',' ∨ c = '\x7d') ∧ ¬ draft.choices.isEmpty then (draft.widen .trailing, 1) else twoStars
  | _ => (draft.push .star, 0)

/-- The glob that has been read. -/
def finish (draft : Draft) : Except Error Glob :=
  if draft.choices.isEmpty then .ok draft.tokens.reverse else .error .unclosedChoice

end Draft

/-- Reads on after `skip` characters that have been used already. With `lenient`, a bracket without a
    partner is taken as it is. -/
def readFrom (lenient : Bool) (draft : Draft) (skip : Nat) (previous : Option Char) :
    Text → Except Error Draft
  | [] => .ok draft
  | c :: text =>
    match skip with
    | skip + 1 => readFrom lenient draft skip (some c) text
    | 0 =>
      match c with
      | '?' => readFrom lenient (draft.push .any) 0 (some c) text
      | '*' =>
        let (draft, used) := draft.star previous text
        readFrom lenient draft used (some c) text
      | '[' =>
        if draft.plainBrackets then readFrom lenient (draft.push (.literal c)) 0 (some c) text
        else
          match set? text with
          | .error error => .error error
          | .ok (some (token, used)) => readFrom lenient (draft.push token) used (some c) text
          | .ok none =>
            if lenient then
              readFrom lenient { draft.push (.literal c) with plainBrackets := true } 0 (some c) text
            else .error .unclosedSet
      | '\x7b' => readFrom lenient draft.openChoice 0 (some c) text
      | '\x7d' =>
        match draft.closeChoice with
        | .error error => .error error
        | .ok draft => readFrom lenient draft 0 (some c) text
      | ',' => readFrom lenient draft.nextBranch 0 (some c) text
      | '\\' =>
        match text with
        | [] => .error .danglingEscape
        | next :: _ => readFrom lenient (draft.push (.literal next)) 1 (some c) text
      | c => readFrom lenient (draft.push (.literal c)) 0 (some c) text

/-- The glob that a text writes. With `lenient`, a bracket without a partner is taken as it is. -/
def parse (lenient : Bool) (text : Text) : Except Error Glob := do
  (← readFrom lenient .start 0 none text).finish

end Relink.Glob

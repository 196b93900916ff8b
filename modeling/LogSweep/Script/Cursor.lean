-- A place in script source, and the gaps of blanks and comments between tokens.
import LogSweep.Span
import LogSweep.Script.Semicolon

namespace LogSweep.Script

/-- A comment that was passed. `markup` tells `<!--` and `-->` comments. -/
structure Comment where
  span : Span
  markup : Bool
  deriving DecidableEq, Repr

/-- A place in the source: the text ahead, its offset, and the comments passed so far, the
latest first. Going back to an earlier cursor forgets the comments passed since. `settled` says
that no markup comment begins here, since a semicolon or an operator could stand here. -/
structure Cursor where
  rest : List Char
  offset : Nat
  comments : List Comment
  settled : Bool
  deriving Repr

namespace Cursor

def ofSource (source : List Char) : Cursor := ⟨source, 0, [], false⟩

/-- Passes `n` characters of one byte each. -/
def advance (c : Cursor) (n : Nat) : Cursor :=
  { c with rest := c.rest.drop n, offset := c.offset + n, settled := false }

/-- Passes a text that stands ahead. -/
def pass (c : Cursor) (passed : List Char) (rest : List Char) : Cursor :=
  { c with rest := rest, offset := c.offset + Text.byteLength passed, settled := false }

/-- Passes `text`, made of ASCII characters, if it stands here. -/
def eat? (c : Cursor) (text : String) : Option Cursor :=
  let cs := text.toList
  if cs.isPrefixOf c.rest then some (c.advance cs.length) else none

def startsWith (c : Cursor) (text : String) : Bool := text.toList.isPrefixOf c.rest

end Cursor

/-! ## Gaps -/

/-- What stands after a gap. `ended` says that the statement may end inside the gap, at the
cursor. `plain` says that only plain blanks stand between the last comment and the cursor. -/
structure Landing where
  cursor : Cursor
  ended : Bool
  plain : Bool

/-- Where the walk over a gap stands. -/
inductive GapWalk
  | blanks (plain : Bool)
  | lineComment (start : Nat)
  | markupComment (start : Nat)
  /-- Inside a block comment; an unclosed one is no comment, and the walk ends at `back`. -/
  | blockComment (start : Nat) (back : Landing)

/-- Whether a blank counts as plain. Before a markup comment the line separators do too. -/
def keepsPlain (markup : Bool) (c : Char) : Bool := isPlainBlank c || (markup && isLineSeparator c)

/-- The walk over a gap. After each comment `ends` is asked whether the statement ends there. -/
def walkGap (markup : Bool) (ends : List Char → Bool) :
    GapWalk → List Char → Nat → List Comment → Landing
  | .blanks p, [], o, k => ⟨⟨[], o, k, false⟩, false, p⟩
  | .blanks _, '/' :: '/' :: cs, o, k => walkGap markup ends (.lineComment o) cs (o + 2) k
  | .blanks p, '/' :: '*' :: cs, o, k =>
    walkGap markup ends (.blockComment o ⟨⟨'/' :: '*' :: cs, o, k, false⟩, false, p⟩) cs (o + 2) k
  | .blanks p, '<' :: '!' :: '-' :: '-' :: cs, o, k =>
    if markup && p then walkGap markup ends (.markupComment o) cs (o + 4) k
    else ⟨⟨'<' :: '!' :: '-' :: '-' :: cs, o, k, false⟩, false, p⟩
  | .blanks p, '-' :: '-' :: '>' :: cs, o, k =>
    if markup && p then walkGap markup ends (.markupComment o) cs (o + 3) k
    else ⟨⟨'-' :: '-' :: '>' :: cs, o, k, false⟩, false, p⟩
  | .blanks p, c :: cs, o, k =>
    if isBlank c then
      walkGap markup ends (.blanks (p && keepsPlain markup c)) cs (o + c.utf8Size) k
    else ⟨⟨c :: cs, o, k, false⟩, false, p⟩
  | .lineComment s, [], o, k =>
    let k := ⟨⟨s, o⟩, false⟩ :: k
    ⟨⟨[], o, k, false⟩, ends [], true⟩
  | .lineComment s, c :: cs, o, k =>
    if endsLineComment c then
      let k := ⟨⟨s, o⟩, false⟩ :: k
      if ends (c :: cs) then ⟨⟨c :: cs, o, k, false⟩, true, true⟩
      else walkGap markup ends (.blanks (keepsPlain markup c)) cs (o + c.utf8Size) k
    else walkGap markup ends (.lineComment s) cs (o + c.utf8Size) k
  | .markupComment s, [], o, k => ⟨⟨[], o, ⟨⟨s, o⟩, true⟩ :: k, false⟩, false, true⟩
  | .markupComment s, c :: cs, o, k =>
    if isLineEnd c then
      walkGap markup ends (.blanks (keepsPlain markup c)) cs (o + c.utf8Size) (⟨⟨s, o⟩, true⟩ :: k)
    else walkGap markup ends (.markupComment s) cs (o + c.utf8Size) k
  | .blockComment _ back, [], _, _ => back
  | .blockComment s _, '*' :: '/' :: cs, o, k =>
    let k := ⟨⟨s, o + 2⟩, false⟩ :: k
    if ends cs then ⟨⟨cs, o + 2, k, false⟩, true, true⟩
    else walkGap markup ends (.blanks true) cs (o + 2) k
  | .blockComment s back, c :: cs, o, k =>
    walkGap markup ends (.blockComment s back) cs (o + c.utf8Size) k

namespace Cursor

/-- The next token. Markup comments are comments too, unless the cursor is settled. -/
def next (c : Cursor) : Cursor :=
  let l := walkGap (!c.settled) (fun _ => false) (.blanks true) c.rest c.offset c.comments
  { l.cursor with settled := c.settled || !l.plain }

/-- The same place, where a semicolon or an operator could stand. -/
def settle (c : Cursor) : Cursor := { c with settled := true }

/-- What stands after the token before the cursor. With `lineEnds` the statement may end there
or after a comment; `operand` says that the token ends an operand. -/
def land (c : Cursor) (lineEnds operand : Bool) : Landing :=
  let ends := fun rest => lineEnds && semicolonImplied operand rest
  if ends c.rest then ⟨c, true, true⟩
  else walkGap false ends (.blanks true) c.rest c.offset c.comments

/-- Passes the comment that comes next, if one does; else moves to the next token. Gives whether
there was one. -/
def nextComment (c : Cursor) : Bool × Cursor :=
  let l := walkGap false (fun _ => true) (.blanks true) c.rest c.offset c.comments
  (l.ended, l.cursor)

/-- The next token, unless the statement may end before it. -/
def onward? (c : Cursor) (lineEnds : Bool) : Option Cursor :=
  let l := c.land lineEnds true
  if l.ended then none else some l.cursor

end Cursor

end LogSweep.Script

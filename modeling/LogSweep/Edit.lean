-- Edits: replacing spans of a source. All spans refer to the source as it was, and everything
-- outside them is copied.
import LogSweep.Span

namespace LogSweep

/-- A span and the text to put in its place. -/
structure Edit where
  span : Span
  text : String
  deriving DecidableEq, Repr

/-- Why spans cannot be replaced. -/
inductive EditError
  /-- `second` begins before `first` ends. -/
  | overlapping (first second : Span)
  | outOfBounds (span : Span) (length : Nat)
  | notBoundary (offset : Nat)
  deriving DecidableEq, Repr

def Span.display (s : Span) : String := toString s.start ++ ".." ++ toString s.stop

def EditError.message : EditError → String
  | .overlapping a b => "Overlapping ranges " ++ a.display ++ " and " ++ b.display
  | .outOfBounds s n => "Range " ++ s.display ++ " out of bounds for source length " ++ toString n
  | .notBoundary o => "Offset " ++ toString o ++ " is not on a UTF-8 character boundary"

namespace Edit

def overlaps (e f : Edit) : Bool := e.span.overlaps f.span

/-- Edits are taken in the order of their starts; ties stay as they are. -/
def startsBefore (e f : Edit) : Bool := e.span.start ≤ f.span.start

end Edit

/-! ## Checking spans -/

/-- Whether one span can be replaced at all. -/
def checkSpan (source : List Char) (s : Span) : Except EditError Unit :=
  let length := Text.byteLength source
  if s.stop < s.start || length < s.stop then .error (.outOfBounds s length)
  else if !Text.isBoundary source s.start then .error (.notBoundary s.start)
  else if !Text.isBoundary source s.stop then .error (.notBoundary s.stop)
  else .ok ()

/-- Checks spans one by one, each also against the one before it. -/
def checkSpansAfter (source : List Char) (previous : Option Span) : List Span → Except EditError Unit
  | [] => .ok ()
  | s :: rest =>
    match checkSpan source s with
    | .error e => .error e
    | .ok () =>
      match previous with
      | some p =>
        if s.start < p.stop then .error (.overlapping p s)
        else checkSpansAfter source (some s) rest
      | none => checkSpansAfter source (some s) rest

def checkSpans (source : List Char) (spans : List Span) : Except EditError Unit :=
  checkSpansAfter source none spans

/-! ## Applying edits -/

/-- A source and the edits to make in it, in the order they were added. -/
structure EditList where
  source : String
  edits : List Edit
  deriving DecidableEq, Repr

namespace EditList

def ofSource (source : String) : EditList := ⟨source, []⟩

def add (l : EditList) (e : Edit) : EditList := { l with edits := l.edits ++ [e] }

def addAll (l : EditList) (es : List Edit) : EditList := { l with edits := l.edits ++ es }

/-- The edits in the order in which they are made. -/
def ordered (l : EditList) : List Edit := l.edits.mergeSort Edit.startsBefore

/-- Whether the edits can be made. Only their spans are put in order. -/
def validate (l : EditList) : Except EditError Unit :=
  checkSpans l.source.toList ((l.edits.map Edit.span).mergeSort startsBefore)

/-- Copies the text from `offset` on, with the edits made. There is no result when an edit
does not fit in what is left. -/
def splice (offset : Nat) (rest : List Char) : List Edit → Option (List Char)
  | [] => some rest
  | e :: es => do
    let (gap, here) ← Text.splitAt? (e.span.start - offset) rest
    let (_, after) ← Text.splitAt? (e.span.stop - e.span.start) here
    return gap ++ e.text.toList ++ (← splice e.span.stop after es)

/-- The source with the edits made. -/
def apply (l : EditList) : Except EditError String :=
  match checkSpans l.source.toList (l.ordered.map Edit.span) with
  | .error e => .error e
  | .ok () => .ok (String.ofList ((splice 0 l.source.toList l.ordered).getD []))

end EditList

/-! ## Planning -/

/-- The number of bytes up to and with the semicolon that follows spaces and tabs. -/
def semicolonAfter? : List UInt8 → Option Nat
  | [] => none
  | b :: bs =>
    if b = 0x3B then some 1
    else if b = 0x20 || b = 0x09 then (semicolonAfter? bs).map (· + 1)
    else none

/-- The bytes between two offsets, when these are in order and not past the end. -/
def bytesBetween? (bs : List UInt8) (start stop : Nat) : Option (List UInt8) :=
  if start ≤ stop ∧ stop ≤ bs.length then some ((bs.take stop).drop start) else none

/-- Moves `stop` past a semicolon that follows it, with nothing but spaces and tabs between.
Nothing from `limit` on is looked at. -/
def extendToSemicolon (source : String) (stop limit : Nat) : Nat :=
  let bs := Text.bytes source.toList
  let limit := min limit bs.length
  match (bytesBetween? bs (min stop limit) limit).bind semicolonAfter? with
  | some k => stop + k
  | none => stop

/-- The edits that replace matches by what `replace` makes of their text. -/
def planFrom (source : String) (replace : String → String) (extend : Bool) :
    List Span → List Edit
  | [] => []
  | s :: rest =>
    let limit :=
      match rest with
      | next :: _ => next.start
      | [] => Text.byteLength source.toList
    let stop := if extend then extendToSemicolon source s.stop limit else s.stop
    let grown : Span := ⟨s.start, stop⟩
    ⟨grown, replace ((grown.slice? source).getD "")⟩ :: planFrom source replace extend rest

/-- Plans the edits for matches in ascending order. With `extend` each match first grows over
a semicolon that follows it, up to the next match. -/
def planEdits (source : String) (found : List Span) (replace : String → String) (extend : Bool) :
    Except EditError (List Edit) := do
  checkSpans source.toList found
  return planFrom source replace extend found

/-- Plans the edits and makes them. -/
def replaceMatches (source : String) (found : List Span) (replace : String → String)
    (extend : Bool) : Except EditError String := do
  ((EditList.ofSource source).addAll (← planEdits source found replace extend)).apply

end LogSweep

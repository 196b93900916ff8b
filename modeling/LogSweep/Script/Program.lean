-- Whole programs: the rules tied together, the tree of a text with its comments, and the tree
-- of a text that cannot be read.
import LogSweep.Script.Statement
import LogSweep.Script.Comments

namespace LogSweep.Script

/-! ## The rules tied together -/

/-- The rules for texts nested at most so deep. -/
def rules : Nat → Rules
  | 0 => ⟨fun _ => stop none, fun _ _ => stop none, stop none, stop none⟩
  | fuel + 1 =>
    ⟨fun ctx => operandRule fuel (rules fuel) ctx,
      fun ctx least => operatorsRule fuel (rules fuel) ctx least,
      fun c => statementRule fuel (rules fuel) c,
      fun c => elementRule fuel (rules fuel) c⟩

/-- A depth that no text of this many characters reaches. -/
def depthFor (length : Nat) : Nat := 4 * length + 64

/-! ## Programs -/

/-- Where a program stopped: the statements before that place, the offset at which the next
one begins, and the failure. -/
structure Halt where
  done : List ParseTree
  start : Nat
  failure : Failure

/-- Reads statements up to the end of the text. -/
def readStatements (r : Rules) : Nat → List ParseTree → Cursor → Except Halt (List ParseTree × Cursor)
  | 0, done, c => .error ⟨done.reverse, c.offset, ⟨c.offset, c.offset, none, 0⟩⟩
  | fuel + 1, done, c =>
    let c' := c.next
    if c'.rest.isEmpty then .ok (done.reverse, c')
    else
      match r.statement c with
      | .ok (t, after) => readStatements r fuel (t :: done) after
      | .error e => .error ⟨done.reverse, c'.offset, e⟩

/-- The line `#!…` that may open a program. -/
def interpreterLine (c : Cursor) : List ParseTree × Cursor :=
  let c' := c.next
  if c'.startsWith "#!" then
    let text := c'.rest.takeWhile (· ≠ '\n')
    let after := c'.pass text (c'.rest.drop text.length)
    ([mkNode "hash_bang_line" c'.offset after.offset []], after)
  else ([], c)

/-- The program node: from the first token or comment to the end of the text. -/
def programNode (length : Nat) (children : List ParseTree) (comments : List Comment) : ParseTree :=
  let whole := placeComments (mkNode "program" 0 length children) comments
  let start :=
    match whole.children with
    | t :: _ => t.span.start
    | [] => length
  mkNode "program" start length whole.children

/-- Reads a text that is sound. -/
def read (source : List Char) : Except Halt ParseTree :=
  let fuel := depthFor source.length
  let (opening, c) := interpreterLine (Cursor.ofSource source)
  match readStatements (rules fuel) fuel opening.reverse c with
  | .ok (ts, after) => .ok (programNode after.offset ts after.comments.reverse)
  | .error h => .error h

/-! ## Texts that cannot be read -/

def isClosing (c : Char) : Bool := c = ')' || c = ']' || c = '}'

/-- The end of a run of closing brackets, with blanks between them. `stop` is the end of the
last bracket so far. -/
def closingRun : List Char → Nat → Nat → Nat
  | [], _, stop => stop
  | c :: cs, offset, stop =>
    if isClosing c then closingRun cs (offset + 1) (offset + 1)
    else if isBlank c then closingRun cs (offset + c.utf8Size) stop
    else stop

/-- A node put in for a token that is due. -/
def missingNode (token : String) (offset : Nat) : ParseTree :=
  .make { kind := token, span := ⟨offset, offset⟩, role := .bare, missing := true } []

/-- A node over text that could not be read. -/
def errorNode (start stop : Nat) : ParseTree :=
  .make { kind := "ERROR", span := ⟨start, stop⟩, error := true } []

/-- The token whose absence is the only fault of the text, if there is one: a closing bracket
before a semicolon, or a closing brace at the end, without which the text could be read. -/
def missingToken? (source : List Char) (e : Failure) : Option ParseTree :=
  match e.due, Text.splitAt? e.last source, Text.splitAt? e.found source with
  | some due, some (front, back), some (_, found) =>
    let fits : Bool :=
      match found with
      | ';' :: _ => due ≠ "\x7d"
      | [] => due = "\x7d"
      | _ => false
    if fits then
      match read (front ++ due.toList ++ back) with
      | .ok _ => some (missingNode due e.last)
      | .error _ => none
    else none
  | _, _, _ => none

/-- What could not be read: a run of closing brackets where a statement should begin, a missing
token, or the unfinished statement up to the end of the text. -/
def faultOf (source : List Char) (h : Halt) : ParseTree :=
  match Text.splitAt? h.start source with
  | some (_, c :: cs) =>
    if isClosing c then
      errorNode h.start (closingRun (c :: cs) h.start h.start)
    else
      match missingToken? source h.failure with
      | some t => t
      | none => errorNode h.start (Text.byteLength source)
  | _ => errorNode h.start (Text.byteLength source)

/-- The tree of a text. A text that cannot be read has a tree with a fault in it. -/
def parse (source : String) : ParseTree :=
  let cs := source.toList
  match read cs with
  | .ok t => t
  | .error h => mkNode "program" 0 (Text.byteLength cs) (h.done ++ [faultOf cs h])

end LogSweep.Script

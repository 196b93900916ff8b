-- The frame in which the rules of script source are written: a reader moves a cursor and
-- yields a value, or stops with a failure.
import LogSweep.ParseTree
import LogSweep.Script.Lexeme

namespace LogSweep.Script

/-- Where a reading stopped: the offset of the token that did not fit, the end of the token
before it, and the closing token that was due, if one was. `depth` counts the blocks around
that place that the reading was in. -/
structure Failure where
  found : Nat
  last : Nat
  due : Option String
  depth : Nat
  deriving DecidableEq, Repr

abbrev Reader := StateT Cursor (Except Failure)

/-- A reading of the text between two places both as an expression and as the pattern of an
assignment, as far as it is one. -/
structure Reading where
  expression : Option ParseTree
  pattern : Option ParseTree

namespace Reading

def ofExpression (t : ParseTree) : Reading := ⟨some t, none⟩

/-- A tree that is its own pattern. -/
def ofTarget (t : ParseTree) : Reading := ⟨some t, some t⟩

end Reading

/-- What surrounds an expression: whether a line end may end it, whether `in` is one of its
operators, and whether an increment may follow its operand. -/
structure Context where
  lineEnds : Bool
  inOperator : Bool
  updates : Bool

namespace Context

/-- Between brackets nothing ends an expression but its closing bracket. -/
def bracketed : Context := ⟨false, true, true⟩

/-- In a statement a line end may end an expression. -/
def statement : Context := ⟨true, true, true⟩

/-- The same, where an increment may follow the operand. -/
def updatable (ctx : Context) : Context := { ctx with updates := true }

end Context

/-- The rules that call each other. Every rule is written against such a record, and the
record for a depth is built from the one for the depth below. -/
structure Rules where
  /-- An operand, with what is written before and after it. -/
  operand : Context → Reader Reading
  /-- Operands joined by operators of at least a level. -/
  operators : Context → Nat → Reader Reading
  statement : Reader ParseTree
  element : Reader ParseTree

/-! ## Moving and failing -/

def stop {α : Type} (due : Option String) : Reader α := do
  let c ← get
  throw ⟨c.next.offset, c.offset, due, 0⟩

/-- Moves to the next token and gives its offset. -/
def toToken : Reader Nat := do
  let c := (← get).next
  set c
  return c.offset

/-- The end of what was read last. -/
def here : Reader Nat := return (← get).offset

/-- Takes a token if it comes next, across a gap. -/
def tryToken (text : String) : Reader Bool := do
  match (← get).next.eat? text with
  | some c => set c; return true
  | none => return false

/-- Takes a token that has to come next. -/
def token (text : String) : Reader Unit := do
  if !(← tryToken text) then stop none

/-- Takes the closing bracket that has to come next. -/
def closing (text : String) : Reader Unit := do
  if !(← tryToken text) then stop (some text)

/-- The word that comes next, across a gap, and the cursor behind it. -/
def peekWord : Reader (Option (String × Cursor)) := return (← get).next.name?

/-- Takes a given word if it comes next. -/
def tryWord (word : String) : Reader Bool := do
  match ← peekWord with
  | some (w, c) => if w = word then set c; return true else return false
  | none => return false

def word (w : String) : Reader Unit := do
  if !(← tryWord w) then stop none

/-- The character that comes next, across a gap. -/
def peekChar : Reader (Option Char) := return (← get).next.rest.head?

/-- Runs a reader; where it fails, goes back and runs the other. A failure inside a block would
stop the other as well. -/
def orElse {α : Type} (first second : Reader α) : Reader α := fun c =>
  match first c with
  | .ok r => .ok r
  | .error e => if e.depth = 0 then second c else .error e

/-- Runs a reader for what stands in a block. -/
def inBlock {α : Type} (inside : Reader α) : Reader α := fun c =>
  match inside c with
  | .ok r => .ok r
  | .error e => .error { e with depth := e.depth + 1 }

/-! ## Nodes -/

def mkNode (kind : String) (start stop : Nat) (children : List ParseTree) : ParseTree :=
  .make { kind := kind, span := ⟨start, stop⟩ } children

/-- A node from `start` to the end of what was read last. -/
def node (kind : String) (start : Nat) (children : List ParseTree) : Reader ParseTree :=
  return mkNode kind start (← here) children

/-- A node without children for what stands from the next token up to a cursor. -/
def leafTo (kind : String) (after : Cursor) : Reader ParseTree := do
  let start ← toToken
  set { after with comments := (← get).comments }
  node kind start []

/-- The name that has to come next, as a node. Reserved words are no names. -/
def nameNode (kind : String) : Reader ParseTree := do
  match ← peekWord with
  | some (w, after) => if isReserved w then stop none else leafTo kind after
  | none => stop none

/-- Any word that has to come next, as a node. -/
def wordNode (kind : String) : Reader ParseTree := do
  match ← peekWord with
  | some (_, after) => leafTo kind after
  | none => stop none

def asExpression (r : Reading) : Reader ParseTree :=
  match r.expression with
  | some t => return t
  | none => stop none

def asPattern (r : Reading) : Reader ParseTree :=
  match r.pattern with
  | some t => return t
  | none => stop none

/-! ## The end of a statement -/

/-- Ends a statement: with a semicolon, or where one may be left out. -/
def semicolon (operand : Bool) : Reader Unit := do
  let l := (← get).land true operand
  if l.ended then set l.cursor
  else
    match l.cursor.eat? ";" with
    | some c => set c
    | none => stop none

/-- Takes the place of a semicolon that is left out, if one is. -/
def impliedSemicolon (operand : Bool) : Reader Unit := do
  let l := (← get).land true operand
  if l.ended then set l.cursor else modify Cursor.settle

/-! ## Expressions in brackets and sequences -/

namespace Rules

/-- One expression. -/
def expression (r : Rules) (ctx : Context) : Reader ParseTree := do
  asExpression (← r.operators ctx 0)

/-- The expressions after a comma. -/
def sequenceTail (r : Rules) (ctx : Context) : Nat → List ParseTree → Reader (List ParseTree)
  | 0, _ => stop none
  | fuel + 1, done => do
    match (← get).onward? ctx.lineEnds with
    | some c =>
      match c.eat? "," with
      | some after =>
        set after
        let t ← r.expression ctx
        r.sequenceTail ctx fuel (t :: done)
      | none => return done.reverse
    | none => return done.reverse

/-- One expression, or several with commas between them. -/
def expressions (fuel : Nat) (r : Rules) (ctx : Context) : Reader ParseTree := do
  let first ← r.expression ctx
  match ← r.sequenceTail ctx fuel [] with
  | [] => return first
  | more => node "sequence_expression" first.span.start (first :: more)

/-- Expressions in parentheses. -/
def parenthesized (fuel : Nat) (r : Rules) : Reader ParseTree := do
  let start ← toToken
  token "("
  let inner ← r.expressions fuel .bracketed
  closing ")"
  node "parenthesized_expression" start [inner]

end Rules

end LogSweep.Script

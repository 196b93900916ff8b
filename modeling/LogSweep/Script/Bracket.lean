-- Comma lists in brackets. One reading serves arrays and array patterns, arguments, the
-- parameters of functions and parenthesised expressions.
import LogSweep.Script.Literal

namespace LogSweep.Script

/-- An item of a comma list. -/
inductive Item
  | comma
  | element (reading : Reading)
  /-- `...x`, from its dots on. -/
  | spread (reading : Reading)

/-- Takes an assignment sign that has to do with what follows, not `==` or `=>`. -/
def tryAssign : Reader Bool := do
  let c := (← get).next
  match c.rest with
  | '=' :: '=' :: _ => return false
  | '=' :: '>' :: _ => return false
  | '=' :: _ => set (c.advance 1); return true
  | _ => return false

/-- `...x`: a spread where `x` is an expression, a rest where it is a pattern. -/
def spread (r : Rules) : Reader Reading := do
  let start ← toToken
  token "..."
  let inner ← r.operators .bracketed 0
  let stop ← here
  return ⟨inner.expression.map (fun t => mkNode "spread_element" start stop [t]),
    match inner.pattern with
    | some t =>
      if t.kind = "assignment_pattern" then none else some (mkNode "rest_pattern" start stop [t])
    | none => none⟩

/-- The items up to a closing bracket, which is taken. -/
def items (r : Rules) (close : String) : Nat → List Item → Reader (List Item)
  | 0, _ => stop none
  | fuel + 1, done => do
    if ← tryToken close then return done.reverse
    else if ← tryToken "," then items r close fuel (.comma :: done)
    else
      match done with
      | .element _ :: _ => stop (some close)
      | .spread _ :: _ => stop (some close)
      | _ =>
        if (← get).next.startsWith "..." then
          let x ← spread r
          items r close fuel (.spread x :: done)
        else
          let x ← r.operators .bracketed 0
          items r close fuel (.element x :: done)

namespace Item

/-- The trees of the items, where each has one. -/
def trees (pick : Reading → Option ParseTree) : List Item → Option (List ParseTree)
  | [] => some []
  | .comma :: more => trees pick more
  | .element x :: more => do return (← pick x) :: (← trees pick more)
  | .spread x :: more => do return (← pick x) :: (← trees pick more)

def expressions (is : List Item) : Option (List ParseTree) := trees Reading.expression is

def patterns (is : List Item) : Option (List ParseTree) := trees Reading.pattern is

/-- Whether elements and commas take turns, beginning with an element. -/
def alternate : List Item → Bool
  | [] => true
  | .comma :: _ => false
  | _ :: [] => true
  | _ :: .comma :: more => alternate more
  | _ :: _ => false

/-- Whether the items are the inside of parentheses around expressions. -/
def parenthesizable (is : List Item) : Bool :=
  alternate is && is.all (fun i => match i with | .spread _ => false | _ => true) &&
    match is.getLast? with
    | some (.element _) => true
    | _ => false

end Item

/-- An array, or the pattern of one. -/
def arrayRule (fuel : Nat) (r : Rules) : Reader Reading := do
  let start ← toToken
  token "["
  let is ← items r "]" fuel []
  let stop ← here
  return ⟨(Item.expressions is).map (mkNode "array" start stop),
    (Item.patterns is).map (mkNode "array_pattern" start stop)⟩

/-- The arguments of a call. -/
def arguments (fuel : Nat) (r : Rules) : Reader ParseTree := do
  let start ← toToken
  token "("
  let is ← items r ")" fuel []
  match Item.expressions is with
  | some ts => node "arguments" start ts
  | none => stop none

/-- The parameters of a function that the items stand for, if they do. -/
def parametersOf (start stop : Nat) (is : List Item) : Option ParseTree :=
  if Item.alternate is then (Item.patterns is).map (mkNode "formal_parameters" start stop)
  else none

/-- The parameters of a function. -/
def parameters (fuel : Nat) (r : Rules) : Reader ParseTree := do
  let start ← toToken
  token "("
  let is ← items r ")" fuel []
  match parametersOf start (← here) is with
  | some t => return t
  | none => stop none

end LogSweep.Script

-- Functions, the members of objects and classes, and classes.
import LogSweep.Script.Bracket

namespace LogSweep.Script

/-! ## Blocks and functions -/

/-- The statements up to the closing brace, which is not taken. -/
def statements (r : Rules) : Nat → List ParseTree → Reader (List ParseTree)
  | 0, _ => stop none
  | fuel + 1, done => do
    match ← peekChar with
    | none => stop (if done.isEmpty then none else some "\x7d")
    | some '}' => return done.reverse
    | _ =>
      let t ← r.statement
      statements r fuel (t :: done)

/-- A block of statements. A semicolon left out after it belongs to it, so that comments up
to that place do too. `operand` says, from the statements inside, whether the block could
also end an operand. -/
def block (fuel : Nat) (r : Rules) (operand : List ParseTree → Bool) : Reader ParseTree := do
  let start ← toToken
  token "\x7b"
  let inside ← inBlock (statements r fuel [])
  inBlock (closing "\x7d")
  impliedSemicolon (operand inside)
  node "statement_block" start inside

/-- A block that is never an operand. -/
def plainBlock (fuel : Nat) (r : Rules) : Reader ParseTree := block fuel r (fun _ => false)

/-- The body of a function that is an operand, or could be one. -/
def operandBlock (fuel : Nat) (r : Rules) : Reader ParseTree := block fuel r (fun _ => true)

/-- What follows the word `function`: a star, a name, parameters and a body. Gives whether
there is a star, and the nodes. -/
def functionRest (fuel : Nat) (r : Rules) : Reader (Bool × List ParseTree) := do
  let star ← tryToken "*"
  let name ←
    match ← peekChar with
    | some '(' => pure []
    | _ => pure [← nameNode "identifier"]
  let params ← parameters fuel r
  let body ← operandBlock fuel r
  return (star, name ++ [params, body])

/-- A function as an operand, at `start`, past the word `function`. -/
def functionExpression (fuel : Nat) (r : Rules) (start : Nat) : Reader ParseTree := do
  let (star, parts) ← functionRest fuel r
  node (if star then "generator_function" else "function_expression") start parts

/-! ## Members -/

/-- The name of a member. Every word will do. -/
def propertyName (fuel : Nat) (r : Rules) : Reader ParseTree := do
  match ← peekChar with
  | some '"' => stringLiteral fuel
  | some '\'' => stringLiteral fuel
  | some '[' =>
    let start ← toToken
    token "["
    let t ← r.expression .bracketed
    closing "]"
    node "computed_property_name" start [t]
  | some '#' =>
    match (← get).next.privateName? with
    | some after => leafTo "private_property_identifier" after
    | none => stop none
  | some c =>
    if isDigit c || c = '.' then numberLiteral
    else wordNode "property_identifier"
  | none => stop none

/-- A dotted name after `@`. -/
def decoratorPath : Nat → ParseTree → Reader ParseTree
  | 0, _ => stop none
  | fuel + 1, object => do
    let c := (← get).next
    if c.startsWith "." && numberLength c.rest = 0 then
      token "."
      let property ← nameNode "property_identifier"
      let t ← node "member_expression" object.span.start
        [object.inField .object, property.inField .property]
      decoratorPath fuel t
    else return object

/-- A decorator: `@a`, `@a.b` or a call of either. -/
def decorator (fuel : Nat) (r : Rules) : Reader ParseTree := do
  let start ← toToken
  token "@"
  let name ← decoratorPath fuel (← nameNode "identifier")
  match ← peekChar with
  | some '(' =>
    let args ← arguments fuel r
    let call ← node "call_expression" name.span.start
      [name.inField .function, args.inField .arguments]
    node "decorator" start [call]
  | _ => node "decorator" start [name]

def decorators (r : Rules) : Nat → List ParseTree → Reader (List ParseTree)
  | 0, _ => stop none
  | fuel + 1, done => do
    match ← peekChar with
    | some '@' =>
      let t ← decorator fuel r
      decorators r fuel (t :: done)
    | _ => return done.reverse

/-- Whether what follows a word makes the word the name of a member and not a modifier. In a
class a line end does so too. -/
def namesMember (inClass : Bool) (after : Cursor) : Bool :=
  let l := after.land inClass false
  if l.ended then true
  else
    match l.cursor.rest with
    | [] => true
    | c :: _ => "(:,\x7d;=".toList.contains c

/-- Takes a modifier word of a member, if it is one. -/
def tryModifier (inClass : Bool) (w : String) : Reader Bool := do
  match ← peekWord with
  | some (v, after) =>
    if v = w && !namesMember inClass after then set after; return true else return false
  | none => return false

/-- The rest of the text behind `static`, blanks, `get` and the last of the line ends among the
blanks that follow, if all of these stand here. -/
def staticGetter? (cs : List Char) : Option (List Char) :=
  if "static".toList.isPrefixOf cs then
    let more := (cs.drop 6).dropWhile isPlainBlank
    if more.length + 6 < cs.length && "get".toList.isPrefixOf more then
      let blanks := (more.drop 3).takeWhile isPlainBlank
      let kept := (blanks.reverse.dropWhile (· ≠ '\n')).length
      if kept = 0 then none else some (more.drop (3 + kept))
    else none
  else none

/-- What the words and the star before the name of a member say about it. -/
inductive Modified
  /-- There is none. -/
  | plain
  /-- There is `static`. -/
  | static
  /-- There are others, which only a method has. -/
  | method
  deriving DecidableEq

/-- The words and the star before the name of a member. The words `static get` before a line
end are one modifier, which makes the member a method. -/
def modifiers (inClass : Bool) : Reader Modified := do
  let c := (← get).next
  match staticGetter? c.rest with
  | some rest =>
    set (c.pass (c.rest.take (c.rest.length - rest.length)) rest)
    let _ ← tryModifier false "async"
    let _ ← accessor false
    return .method
  | none =>
    let s ← tryModifier inClass "static"
    let a ← tryModifier inClass "async"
    let g ← accessor (inClass && !a)
    return if a || g then .method else if s then .static else .plain
where
  /-- The star, `get` or `set`, if one of them comes next. -/
  accessor (inClass : Bool) : Reader Bool := do
    if ← tryToken "*" then return true
    else if ← tryModifier inClass "get" then return true
    else tryModifier inClass "set"

/-- A method, at its parameters. -/
def methodRest (fuel : Nat) (r : Rules) (start : Nat) (before : List ParseTree) :
    Reader ParseTree := do
  let params ← parameters fuel r
  let body ← plainBlock fuel r
  node "method_definition" start (before ++ [params, body])

/-! ## Objects -/

/-- A member of an object, or of the pattern of one. -/
def objectMember (fuel : Nat) (r : Rules) : Reader Reading := do
  let start ← toToken
  let decs ← decorators r fuel []
  let modified ← modifiers false
  let c := (← get).next
  let name ← propertyName fuel r
  match ← peekChar with
  | some '(' =>
    let t ← methodRest fuel r start (decs ++ [name])
    return .ofExpression t
  | some ':' =>
    if modified ≠ .plain || !decs.isEmpty then stop none
    else
      token ":"
      let value ← r.operators .bracketed 0
      let stop ← here
      return ⟨value.expression.map (fun t => mkNode "pair" start stop [name, t]),
        value.pattern.map (fun t => mkNode "pair_pattern" start stop [name, t])⟩
  | _ =>
    if modified ≠ .plain || !decs.isEmpty || c.name?.isNone then stop none
    else
      let short := mkNode "shorthand_property_identifier_pattern" start (← here) []
      if ← tryAssign then
        let value ← r.expression .bracketed
        let t ← node "object_assignment_pattern" start [short, value]
        return ⟨none, some t⟩
      else
        return ⟨some (mkNode "shorthand_property_identifier" start (← here) []), some short⟩

/-- The members up to the closing brace, which is taken. -/
def objectMembers (r : Rules) : Nat → List Item → Reader (List Item)
  | 0, _ => stop none
  | fuel + 1, done => do
    if ← tryToken "\x7d" then return done.reverse
    else if ← tryToken "," then objectMembers r fuel (.comma :: done)
    else
      match done with
      | .element _ :: _ => stop none
      | .spread _ :: _ => stop none
      | _ =>
        if (← get).next.startsWith "..." then
          let x ← spread r
          objectMembers r fuel (.spread x :: done)
        else
          let x ← objectMember fuel r
          objectMembers r fuel (.element x :: done)

/-- An object, or the pattern of one. -/
def objectRule (fuel : Nat) (r : Rules) : Reader Reading := do
  let start ← toToken
  token "\x7b"
  let is ← objectMembers r fuel []
  let stop ← here
  return ⟨(Item.expressions is).map (mkNode "object" start stop),
    (Item.patterns is).map (mkNode "object_pattern" start stop)⟩

/-! ## Classes -/

/-- The rest of a field, past its name. -/
def fieldRest (r : Rules) (start : Nat) (before : List ParseTree) : Reader ParseTree := do
  if (← get).land true false |>.ended then
    let t ← node "field_definition" start before
    semicolon false
    return t
  else if ← tryAssign then
    let value ← r.expression .statement
    let t ← node "field_definition" start (before ++ [value])
    semicolon true
    return t
  else
    let t ← node "field_definition" start before
    semicolon false
    return t

/-- `static { … }`, when it comes next. -/
def staticBlock? (fuel : Nat) (r : Rules) : Reader (Option ParseTree) := do
  match ← peekWord with
  | some ("static", after) =>
    if after.next.startsWith "\x7b" then
      let start ← toToken
      set after
      let body ← plainBlock fuel r
      return some (← node "class_static_block" start [body])
    else return none
  | _ => return none

/-- The members of a class up to the closing brace, which is taken. -/
def classMembers (r : Rules) : Nat → List ParseTree → Reader (List ParseTree)
  | 0, _ => stop none
  | fuel + 1, done => do
    if ← tryToken "\x7d" then return done.reverse
    else if ← tryToken ";" then classMembers r fuel done
    else
      match ← staticBlock? fuel r with
      | some t => classMembers r fuel (t :: done)
      | none =>
        let start ← toToken
        let decs ← decorators r fuel []
        let modified ← modifiers true
        let name ← propertyName fuel r
        modify Cursor.settle
        let ended := ((← get).land true false).ended
        let opens := (← peekChar) = some '('
        if modified = .method || (opens && !ended) then
          let t ← methodRest fuel r start (decs ++ [name])
          classMembers r fuel (t :: done)
        else
          let t ← fieldRest r start (decs ++ [name])
          classMembers r fuel (t :: done)

/-- A class past its decorators and the word `class`. Gives whether it has a name, and the
nodes. -/
def classRest (fuel : Nat) (r : Rules) : Reader (Bool × List ParseTree) := do
  let name ←
    match ← peekWord with
    | some ("extends", _) => pure []
    | some _ => pure [← nameNode "identifier"]
    | none => pure []
  let at_ ← (return (← get).next.offset)
  let heritage ←
    if ← tryWord "extends" then
      let t ← r.expression .bracketed
      pure [← node "class_heritage" at_ [t]]
    else pure []
  let start ← toToken
  token "\x7b"
  let inside ← classMembers r fuel []
  let body ← node "class_body" start inside
  return (!name.isEmpty, name ++ heritage ++ [body])

/-- A class as an operand, with its decorators. -/
def classExpression (fuel : Nat) (r : Rules) : Reader ParseTree := do
  let start ← toToken
  let decs ← decorators r fuel []
  word "class"
  let (_, parts) ← classRest fuel r
  node "class" start (decs ++ parts)

end LogSweep.Script

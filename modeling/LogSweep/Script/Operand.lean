-- Operands: names, literals, functions and everything in brackets, with the words and signs
-- before them and the calls and accesses after them.
import LogSweep.Script.Markup
import LogSweep.Script.Member

namespace LogSweep.Script

/-- What may follow an operand directly. -/
inductive Standing
  /-- Anything. -/
  | primary
  /-- All but an optional call. -/
  | constructed
  /-- Neither an optional call nor a template. -/
  | compound
  deriving DecidableEq

/-- An operand so far. -/
structure Operand where
  reading : Reading
  standing : Standing

namespace Operand

def ofTree (t : ParseTree) : Operand := ⟨.ofExpression t, .primary⟩

def ofTarget (t : ParseTree) : Operand := ⟨.ofTarget t, .primary⟩

end Operand

/-- Whether `=>` comes next. -/
def arrowNext (ctx : Context) : Reader Bool := do
  match (← get).onward? ctx.lineEnds with
  | some c => return c.startsWith "=>"
  | none => return false

/-! ## Bodies in braces -/

/-- Which of two readings a brace that could open a block or an object calls for. -/
inductive BraceChoice
  | block
  | object
  /-- An object if it is one, else a block. -/
  | objectFirst
  /-- A block if it is one, else an object. -/
  | blockFirst

/-- Words that begin a statement and are no names there. -/
def beginsStatement (w : String) : Bool :=
  ["yield", "undefined", "using"].contains w ||
    (isReserved w && !(["case", "catch", "default", "else", "export", "extends", "finally", "in",
      "instanceof"].contains w))

/-- Looks past an opening brace. A label and the name of a member look alike, and so do a call
and a method. -/
def braceChoice (brace : Cursor) : BraceChoice :=
  let c := (brace.advance 1).next
  match c.rest with
  | [] => .block
  | '*' :: _ => .object
  | ',' :: _ => .object
  | d :: more =>
    if d = '"' || d = '\'' || d = '[' || isDigit d then .objectFirst
    else if d = '.' then (if "..".toList.isPrefixOf more then .object else .objectFirst)
    else
      match c.name? with
      | some (w, after) =>
        let l := after.land true true
        if l.ended || beginsStatement w then .block
        else
          match l.cursor.rest with
          | ':' :: _ | '}' :: _ => .objectFirst
          | '(' :: _ => .blockFirst
          | e :: _ =>
            if ["get", "set", "static", "async"].contains w &&
                (isNameStart e || e = '"' || e = '\'' || e = '[' || e = '*' || e = '#' || isDigit e)
            then .objectFirst
            else .block
          | [] => .block
      | none => .block

/-- Reads a brace as the one or the other. -/
def braceOr {α : Type} (brace : Cursor) (asBlock asObject : Reader α) : Reader α :=
  match braceChoice brace with
  | .block => asBlock
  | .object => asObject
  | .objectFirst => orElse asObject asBlock
  | .blockFirst => fun c =>
    match asBlock c with
    | .ok r => .ok r
    | .error e =>
      if 1 < e.depth then .error e
      else
        match asObject c with
        | .ok r => .ok r
        | .error _ => .error e

/-! ## Arrow functions and parentheses -/

/-- An arrow function past its parameters, at the arrow. -/
def arrowRest (fuel : Nat) (r : Rules) (ctx : Context) (start : Nat) (params : ParseTree) :
    Reader Operand := do
  token "=>"
  let c := (← get).next
  let body ←
    if c.startsWith "\x7b" then
      braceOr c (operandBlock fuel r) (r.expression ctx.updatable)
    else r.expression ctx.updatable
  return .ofTree (← node "arrow_function" start [params, body])

/-- The expressions that items in parentheses stand for. -/
def parenthesizedOf (start stop : Nat) (is : List Item) : Option ParseTree :=
  if Item.parenthesizable is then
    match Item.expressions is with
    | some [t] => some (mkNode "parenthesized_expression" start stop [t])
    | some (t :: more) =>
      let last := (t :: more).getLast?.getD t
      some (mkNode "parenthesized_expression" start stop
        [mkNode "sequence_expression" t.span.start last.span.stop (t :: more)])
    | _ => none
  else none

/-- Parentheses: around expressions, or around the parameters of an arrow function. -/
def parenthesesRule (fuel : Nat) (r : Rules) (ctx : Context) : Reader Operand := do
  let start ← toToken
  token "("
  let is ← items r ")" fuel []
  let stop_ ← here
  let inner := parenthesizedOf start stop_ is
  let arrow ← if inner.isSome then arrowNext ctx else pure true
  match arrow, parametersOf start stop_ is, inner with
  | true, some params, _ => arrowRest fuel r ctx start params
  | false, _, some t => return .ofTree t
  | _, _, _ => stop none

/-- What the word `async` begins: a function, an arrow function or a call of that name. The
cursor stands behind the word. -/
def asyncRule (fuel : Nat) (r : Rules) (ctx : Context) (start : Nat) : Reader Operand := do
  let name ← node "identifier" start []
  match (← get).onward? ctx.lineEnds with
  | none => return .ofTarget name
  | some c =>
    if c.startsWith "=>" then arrowRest fuel r ctx start name
    else if c.startsWith "(" then
      let open_ := c.offset
      token "("
      let is ← items r ")" fuel []
      let stop_ ← here
      if ← arrowNext ctx then
        match parametersOf open_ stop_ is with
        | some params => arrowRest fuel r ctx start params
        | none => stop none
      else
        match Item.expressions is with
        | some ts =>
          let args := mkNode "arguments" open_ stop_ ts
          let call ← node "call_expression" start
            [name.inField .function, args.inField .arguments]
          return .ofTree call
        | none => stop none
    else
      match c.name? with
      | some ("function", after) =>
        set after
        return .ofTree (← functionExpression fuel r start)
      | some (w, after) =>
        if (isReserved w && w ≠ "export") || !(after.next.startsWith "=>") then return .ofTarget name
        else
          let param ← wordNode "identifier"
          arrowRest fuel r ctx start param
      | none => return .ofTarget name

/-! ## Calls and accesses -/

/-- The name after a point. -/
def accessName : Reader ParseTree := do
  let c := (← get).next
  match c.privateName? with
  | some after => leafTo "private_property_identifier" after
  | none => wordNode "property_identifier"

/-- The same operand with a name accessed. -/
def access (start : Nat) (object : ParseTree) : Reader Operand := do
  let name ← accessName
  return .ofTarget (← node "member_expression" start
    [object.inField .object, name.inField .property])

/-- The same operand called. -/
def call (fuel : Nat) (r : Rules) (start : Nat) (callee : ParseTree) : Reader Operand := do
  let args ← arguments fuel r
  return .ofTree (← node "call_expression" start
    [callee.inField .function, args.inField .arguments])

/-- The same operand with an index; `before` holds the sign of an optional access. -/
def index (fuel : Nat) (r : Rules) (start : Nat) (object : ParseTree) (before : List ParseTree) :
    Reader Operand := do
  token "["
  let i ← r.expressions fuel .bracketed
  closing "]"
  return .ofTarget (← node "subscript_expression" start (object :: (before ++ [i])))

/-- What follows `?.`. -/
def optionalAccess (fuel : Nat) (r : Rules) (start : Nat) (object : ParseTree)
    (standing : Standing) (chain : ParseTree) : Reader Operand := do
  match ← peekChar with
  | some '(' => if standing = .primary then call fuel r start object else stop none
  | some '[' => index fuel r start object [chain]
  | _ => access start object

/-- The calls and accesses after an operand. Behind `new` no call is one of them. -/
def suffixes (r : Rules) (ctx : Context) (calls : Bool) (start : Nat) :
    Nat → Operand → Reader Operand
  | 0, _ => stop none
  | fuel + 1, x => do
    match (← get).onward? ctx.lineEnds with
    | none => return x
    | some c =>
      match c.rest with
      | '.' :: '.' :: _ => return x
      | '.' :: _ =>
        let t ← asExpression x.reading
        set (c.advance 1)
        suffixes r ctx calls start fuel (← access start t)
      | '?' :: '.' :: d :: _ =>
        if isDigit d then return x
        else
          let t ← asExpression x.reading
          let chain := mkNode "optional_chain" c.offset (c.offset + 2) []
          set (c.advance 2)
          suffixes r ctx calls start fuel (← optionalAccess fuel r start t x.standing chain)
      | '[' :: _ =>
        let t ← asExpression x.reading
        set c
        suffixes r ctx calls start fuel (← index fuel r start t [])
      | '(' :: _ =>
        if calls then
          let t ← asExpression x.reading
          set c
          suffixes r ctx calls start fuel (← call fuel r start t)
        else return x
      | '`' :: _ =>
        if x.standing = .compound then return x
        else
          let t ← asExpression x.reading
          set c
          let args ← templateLiteral fuel r
          suffixes r ctx calls start fuel (.ofTree (← node "call_expression" start
            [t.inField .function, args.inField .arguments]))
      | a :: b :: _ =>
        if calls && ctx.updates && ((a = '+' && b = '+') || (a = '-' && b = '-')) then
          let t ← asExpression x.reading
          set (c.advance 2)
          let u ← node "update_expression" start [t]
          suffixes r ctx calls start fuel ⟨.ofExpression u, .compound⟩
        else return x
      | _ => return x

/-! ## Assignments -/

/-- The kinds of expression that `+=` and its like may assign to. -/
def augmentable : List String :=
  ["identifier", "member_expression", "subscript_expression", "parenthesized_expression"]

/-- Whether a sign of an assignment comes next. -/
def assignsNext (ctx : Context) : Reader Bool := do
  match (← get).onward? ctx.lineEnds with
  | some c =>
    return c.assigning?.isSome ||
      (c.startsWith "=" && !c.startsWith "==" && !c.startsWith "=>")
  | none => return false

/-- An assignment to the operand, if a sign of one follows. It takes all that follows as its
value. -/
def assignment (r : Rules) (ctx : Context) (start : Nat) (x : Reading) : Reader Reading := do
  match (← get).onward? ctx.lineEnds with
  | none => return x
  | some c =>
    if c.startsWith "=" && !c.startsWith "==" && !c.startsWith "=>" then
      let target :=
        match x.pattern with
        | some p => some p
        | none => x.expression.filter (fun t => t.kind = "parenthesized_expression")
      match target with
      | none => return x
      | some left =>
        set (c.advance 1)
        let value ← r.expression ctx.updatable
        let stop ← here
        return ⟨some (mkNode "assignment_expression" start stop [left, value]),
          x.pattern.map (fun p => mkNode "assignment_pattern" start stop [p, value])⟩
    else
      match c.assigning?, x.expression with
      | some after, some left =>
        if augmentable.contains left.kind then
          set after
          let value ← r.expression ctx.updatable
          return .ofExpression (← node "augmented_assignment_expression" start [left, value])
        else return x
      | _, _ => return x

/-! ## Words -/

/-- Whether an operand could begin here. -/
def beginsOperand (ctx : Context) (c : Cursor) : Bool :=
  match c.rest with
  | [] => false
  | '.' :: d :: _ => isDigit d
  | '=' :: _ => false
  | '!' :: '=' :: _ | '<' :: '<' :: _ | '<' :: '=' :: _ => false
  | d :: _ =>
    match c.name? with
    | some (w, _) =>
      !(List.contains ["in", "instanceof", "else", "case", "default"] w) &&
        (w ≠ "of" || ctx.inOperator)
    | none => isDigit d || "\"'`([\x7b/<+-!~@#".toList.contains d

/-- An operand past a sign or word that stands before it. -/
def signed (r : Rules) (ctx : Context) (kind : String) (start : Nat) (after : Cursor) :
    Reader Reading := do
  set after
  let t ← asExpression (← r.operand ctx.updatable)
  return .ofExpression (← node kind start [t])

/-- What the word `import` begins inside an expression. -/
def importOperand (fuel : Nat) (r : Rules) (start : Nat) (after : Cursor) : Reader Operand := do
  set after
  let name ← node "import" start []
  match after.next.rest with
  | '(' :: _ => call fuel r start name
  | '.' :: _ =>
    token "."
    word "meta"
    return .ofTree (← node "meta_property" start [])
  | '?' :: '.' :: _ =>
    token "?."
    access start name
  | _ => stop none

/-- A name, which `=>` makes the parameter of an arrow function. -/
def nameOperand (fuel : Nat) (r : Rules) (ctx : Context) (start : Nat) (after : Cursor) :
    Reader Operand := do
  set after
  let name ← node "identifier" start []
  if ← arrowNext ctx then arrowRest fuel r ctx start name
  else return .ofTarget name

/-- An operand without anything before or after it. -/
def primary (fuel : Nat) (r : Rules) (ctx : Context) : Reader Operand := do
  let start ← toToken
  let c ← get
  match c.rest with
  | [] => stop none
  | '(' :: _ => parenthesesRule fuel r ctx
  | '[' :: _ => return ⟨← arrayRule fuel r, .primary⟩
  | '{' :: _ => return ⟨← objectRule fuel r, .primary⟩
  | '`' :: _ => return .ofTree (← templateLiteral fuel r)
  | '"' :: _ => return .ofTree (← stringLiteral fuel)
  | '\'' :: _ => return .ofTree (← stringLiteral fuel)
  | '/' :: _ => return .ofTree (← regexLiteral fuel)
  | '@' :: _ => return .ofTree (← classExpression fuel r)
  | '<' :: _ => return ⟨.ofExpression (← r.element), .compound⟩
  | d :: _ =>
    match c.name? with
    | some (w, after) =>
      match w with
      | "this" | "super" | "true" | "false" | "null" => return .ofTree (← leafTo w after)
      | "undefined" => return .ofTarget (← leafTo w after)
      | "function" =>
        set after
        return .ofTree (← functionExpression fuel r start)
      | "class" => return .ofTree (← classExpression fuel r)
      | "import" => importOperand fuel r start after
      | "yield" => stop none
      | "async" =>
        set after
        asyncRule fuel r ctx start
      | _ =>
        if isReserved w && w ≠ "export" then stop none
        else nameOperand fuel r ctx start after
    | none => if isDigit d || d = '.' then return .ofTree (← numberLiteral) else stop none

/-- What the word `async` begins where a call of that name is none: the name alone. -/
def uncalled (start : Nat) (after : Cursor) (rule : Reader Operand) : Reader Operand := do
  let x ← rule
  if (x.reading.expression.map ParseTree.kind) = some "call_expression" then
    set after
    return .ofTarget (← node "identifier" start [])
  else return x

/-- `new` and what it makes, with its arguments if they are written. -/
def construction (r : Rules) (ctx : Context) : Nat → Reader Operand
  | 0 => stop none
  | fuel + 1 => do
    let start ← toToken
    word "new"
    if (← get).next.startsWith "." && numberLength (← get).next.rest = 0 then
      token "."
      word "target"
      return .ofTree (← node "meta_property" start [])
    else
      let made ←
        match ← peekWord with
        | some ("new", _) => construction r ctx fuel
        | some ("async", after) =>
          let at_ ← toToken
          suffixes r ctx false at_ fuel (← uncalled at_ after (primary fuel r ctx))
        | _ =>
          let at_ ← toToken
          suffixes r ctx false at_ fuel (← primary fuel r ctx)
      if made.standing = .compound then stop none
      let t ← asExpression made.reading
      match (← get).onward? ctx.lineEnds with
      | some c =>
        if c.startsWith "(" then
          let args ← arguments fuel r
          return ⟨.ofExpression (← node "new_expression" start [t, args]), .constructed⟩
        else return ⟨.ofExpression (← node "new_expression" start [t]), .constructed⟩
      | none => return ⟨.ofExpression (← node "new_expression" start [t]), .constructed⟩

/-- An operand with what follows it. -/
def completed (fuel : Nat) (r : Rules) (ctx : Context) (start : Nat) (x : Operand) :
    Reader Reading := do
  let y ← suffixes r ctx true start fuel x
  assignment r ctx start y.reading

/-- `yield`, with or without a value. -/
def yieldRule (fuel : Nat) (r : Rules) (ctx : Context) (start : Nat) (after : Cursor) :
    Reader Reading := do
  set after.settle
  match after.onward? ctx.lineEnds with
  | none => return .ofExpression (← node "yield_expression" start [])
  | some c =>
    if c.startsWith "*" && !c.startsWith "**" then
      token "*"
      let t ← r.expression ctx.updatable
      return .ofExpression (← node "yield_expression" start [t])
    else if beginsOperand ctx c then
      let t ← r.expression ctx.updatable
      return .ofExpression (← node "yield_expression" start [t])
    else
      let t ← node "yield_expression" start []
      completed fuel r ctx start ⟨.ofExpression t, .compound⟩

/-- Whether brackets right behind the word `await` are arguments or an index, and not an operand
of their own: the first item could be a parameter, or an element of a pattern. -/
def bindsTightly : List Item → Bool
  | .element x :: _ => x.expression.isSome && x.pattern.any (·.kind ≠ "assignment_pattern")
  | _ => false

/-- `await` before a parenthesis: the operator, or a name that is called. -/
def awaitParentheses (fuel : Nat) (r : Rules) (ctx : Context) (start : Nat) (name : ParseTree) :
    Reader Reading := do
  let open_ ← toToken
  token "("
  let is ← items r ")" fuel []
  let stop_ ← here
  let inner := parenthesizedOf open_ stop_ is
  let operated (x : Operand) : Reader Reading := do
    let t ← asExpression (← completed fuel r ctx.updatable open_ x)
    return .ofExpression (← node "await_expression" start [t])
  match ← arrowNext ctx, parametersOf open_ stop_ is with
  | true, some params => operated (← arrowRest fuel r ctx open_ params)
  | _, _ =>
    match bindsTightly is, inner, Item.expressions is with
    | false, some t, _ => operated (.ofTree t)
    | _, _, some ts =>
      let args := mkNode "arguments" open_ stop_ ts
      completed fuel r ctx start (.ofTree
        (mkNode "call_expression" start stop_ [name.inField .function, args.inField .arguments]))
    | _, _, none => stop none

/-- `await` before a square bracket: the operator, or a name with an index. -/
def awaitBracket (fuel : Nat) (r : Rules) (ctx : Context) (start : Nat) (name : ParseTree) :
    Reader Reading := do
  let open_ ← toToken
  token "["
  let is ← items r "]" fuel []
  let stop_ ← here
  let c ← get
  let array : Reading := ⟨(Item.expressions is).map (mkNode "array" open_ stop_),
    (Item.patterns is).map (mkNode "array_pattern" open_ stop_)⟩
  let asOperator : Reader Reading := do
    let t ← asExpression
      (← completed fuel r ctx.updatable open_ ⟨array, .primary⟩)
    if ← assignsNext ctx then stop none
    else return .ofExpression (← node "await_expression" start [t])
  match parenthesizedOf open_ stop_ is with
  | some t =>
    let asName : Reader Reading := do
      set c
      completed fuel r ctx start
        (.ofTarget (mkNode "subscript_expression" start stop_ (name :: t.children)))
    if bindsTightly is then asName else orElse asOperator asName
  | none => asOperator

/-- `await`: before an operand the operator, else a name. -/
def awaitRule (fuel : Nat) (r : Rules) (ctx : Context) (start : Nat) (after : Cursor) :
    Reader Reading := do
  let asName : Reader Reading := do
    completed fuel r ctx start (← nameOperand fuel r ctx start after)
  let asOperator := signed r ctx "await_expression" start after
  match after.onward? ctx.lineEnds with
  | none => asName
  | some c =>
    if !beginsOperand ctx c || c.assigning?.isSome then asName
    else
      set after
      let name ← node "identifier" start []
      match c.rest with
      | '(' :: _ => awaitParentheses fuel r ctx start name
      | '[' :: _ => awaitBracket fuel r ctx start name
      | '/' :: _ | '<' :: _ | '+' :: _ | '-' :: _ | '{' :: _ => orElse asOperator asName
      | _ => asOperator

/-- A private name, which stands only before `in`, with all that `in` looks into. -/
def privateOperand (r : Rules) (ctx : Context) : Reader Reading := do
  match (← get).next.privateName? with
  | some after =>
    let name ← leafTo "private_property_identifier" after
    match after.onward? ctx.lineEnds with
    | some c =>
      match c.operator?, c.name? with
      | some (b, behind), some ("in", _) =>
        set behind
        let t ← asExpression (← r.operators ctx (b.level + 1))
        return .ofExpression (← node "binary_expression" name.span.start [name, t])
      | _, _ => stop none
    | none => stop none
  | none => stop none

/-- An operand, with what is written before and after it. -/
def operandRule (fuel : Nat) (r : Rules) (ctx : Context) : Reader Reading := do
  let start ← toToken
  let c ← get
  match c.rest with
  | '+' :: '+' :: _ | '-' :: '-' :: _ =>
    set (c.advance 2)
    let t ← asExpression (← r.operand { ctx with updates := false })
    let u ← node "update_expression" start [t]
    completed fuel r ctx start ⟨.ofExpression u, .compound⟩
  | '+' :: _ | '-' :: _ | '!' :: _ | '~' :: _ => signed r ctx "unary_expression" start (c.advance 1)
  | '#' :: _ => privateOperand r ctx
  | _ =>
    match c.name? with
    | some ("typeof", after) => signed r ctx "unary_expression" start after
    | some ("void", after) => signed r ctx "unary_expression" start after
    | some ("delete", after) => signed r ctx "unary_expression" start after
    | some ("await", after) => awaitRule fuel r ctx start after
    | some ("yield", after) => yieldRule fuel r ctx start after
    | some ("new", _) => completed fuel r ctx start (← construction r ctx fuel)
    | _ => completed fuel r ctx start (← primary fuel r ctx)

/-! ## Operators -/

/-- Whether `?` here asks for a choice and not for an optional access. Only plain blanks may
stand before it. -/
def choiceNext (l : Landing) : Bool :=
  match l.cursor.rest with
  | '?' :: '?' :: _ => false
  | '?' :: '.' :: d :: _ => l.plain && isDigit d
  | '?' :: '.' :: [] => false
  | '?' :: _ => l.plain
  | _ => false

/-- The operators of at least a level after an operand, with their right operands. -/
def operatorTail (r : Rules) (ctx : Context) (least : Nat) (start : Nat) :
    Nat → Reading → Reader Reading
  | 0, _ => stop none
  | fuel + 1, left => do
    let l := (← get).land ctx.lineEnds true
    if l.ended then return left
    else if choiceNext l then
      if choiceLevel < least then return left
      else
        let condition ← asExpression left
        set (l.cursor.advance 1)
        let yes ← r.expression .bracketed
        token ":"
        let no ← asExpression (← r.operators ctx choiceLevel)
        let t ← node "ternary_expression" start [condition, yes, no]
        operatorTail r ctx least start fuel (.ofExpression t)
    else
      match l.cursor.operator? with
      | none => return left
      | some (b, after) =>
        let isIn := !ctx.inOperator && (l.cursor.name?.map Prod.fst) = some "in"
        if b.level < least || isIn then return left
        else
          let a ← asExpression left
          set after
          let c ← asExpression (← r.operators ctx (if b.right then b.level else b.level + 1))
          let t ← node "binary_expression" start [a, c]
          operatorTail r ctx least start fuel (.ofExpression t)

def operatorsRule (fuel : Nat) (r : Rules) (ctx : Context) (least : Nat) : Reader Reading := do
  let start ← toToken
  let first ← r.operand ctx
  operatorTail r ctx least start fuel first

end LogSweep.Script

-- Statements and declarations.
import LogSweep.Script.Operand

namespace LogSweep.Script

/-! ## Expressions as statements -/

def expressionStatement (fuel : Nat) (r : Rules) : Reader ParseTree := do
  let start ← toToken
  let t ← r.expressions fuel .statement
  semicolon true
  node "expression_statement" start [t]

/-- Whether what comes next can only carry an expression on. It tells a function, a class or an
empty block that stands alone from one that is an operand. -/
def carriesOn : Reader Bool := do
  let l := (← get).land true true
  if l.ended then return false
  else
    match l.cursor.rest with
    | '.' :: d :: _ => return !isDigit d
    | '!' :: '=' :: _ => return true
    | c :: _ =>
      if ".,*%&|^>?=".toList.contains c then return true
      else
        match l.cursor.name? with
        | some (w, _) => return w = "in" || w = "instanceof"
        | none => return false
    | [] => return false

/-- A statement that begins with a brace. -/
def braceStatement (fuel : Nat) (r : Rules) : Reader ParseTree := do
  let start ← toToken
  let c ← get
  let asBlock : Reader ParseTree := do
    let t ← block fuel r List.isEmpty
    if t.children.isEmpty && (← carriesOn) then
      set c
      expressionStatement fuel r
    else return mkNode "statement_block" start t.span.stop t.children
  braceOr c asBlock (expressionStatement fuel r)

/-! ## Declarations -/

/-- The name or pattern that a declaration binds. -/
def binding (fuel : Nat) (r : Rules) : Reader ParseTree := do
  match ← peekChar with
  | some '{' => asPattern (← objectRule fuel r)
  | some '[' => asPattern (← arrayRule fuel r)
  | _ => nameNode "identifier"

/-- The value after a bound name, if one is written. -/
def initializer? (r : Rules) (ctx : Context) : Reader (Option ParseTree) := do
  if (← get).land true false |>.ended then return none
  else if ← tryAssign then return some (← r.expression ctx)
  else return none

/-- A bound name with its value. Gives whether there is a value. -/
def declarator (fuel : Nat) (r : Rules) : Reader (Bool × ParseTree) := do
  let name ← binding fuel r
  modify Cursor.settle
  match ← initializer? r .statement with
  | some value => return (true, ← node "variable_declarator" name.span.start [name, value])
  | none => return (false, ← node "variable_declarator" name.span.start [name])

/-- The declarators after the first, each behind a comma. `valued` tells whether the last one
has a value. -/
def declarators (r : Rules) : Nat → Bool → List ParseTree → Reader (Bool × List ParseTree)
  | 0, _, _ => stop none
  | fuel + 1, valued, done => do
    let l := (← get).land true valued
    match l.ended, l.cursor.eat? "," with
    | false, some after =>
      set after
      let (v, t) ← declarator fuel r
      declarators r fuel v (t :: done)
    | _, _ => return (valued, done.reverse)

/-- The rest of a declaration, past its keyword. -/
def declarationRest (fuel : Nat) (r : Rules) (kind : String) (start : Nat) :
    Reader ParseTree := do
  let (v, t) ← declarator fuel r
  let (valued, ts) ← declarators r fuel v [t]
  semicolon valued
  node kind start ts

/-- Whether the word `let` before this place begins a declaration. -/
def letDeclares (lineEnds : Bool) (after : Cursor) : Bool :=
  match after.onward? lineEnds with
  | none => false
  | some c =>
    c.startsWith "[" || c.startsWith "\x7b" ||
      match c.name? with
      | some (w, _) => !isReserved w
      | none => false

/-- A named function that is not an operand; any other function is an expression. -/
def functionStatement (fuel : Nat) (r : Rules) (begin after : Cursor) : Reader ParseTree := do
  let asExpression : Reader ParseTree := do
    set begin
    expressionStatement fuel r
  let head := ((after.next.eat? "*").getD after).next
  if head.startsWith "(" then asExpression
  else
    set after
    let (star, parts) ← functionRest fuel r
    if ← carriesOn then asExpression
    else
      node (if star then "generator_function_declaration" else "function_declaration")
        begin.offset parts

/-- A named class that is not an operand; any other class is an expression. -/
def classStatement (fuel : Nat) (r : Rules) (begin : Cursor) (decs : List ParseTree) :
    Reader ParseTree := do
  word "class"
  let (named, parts) ← classRest fuel r
  if named && !(← carriesOn) then
    impliedSemicolon true
    node "class_declaration" begin.offset (decs ++ parts)
  else
    set begin
    expressionStatement fuel r

/-! ## Modules -/

/-- `from` and the module it names. -/
def fromClause (fuel : Nat) : Reader ParseTree := do
  word "from"
  stringLiteral fuel

/-- A name that a module gives out: a word, a string or `default`, which leaves no node. -/
def exportName (fuel : Nat) : Reader (List ParseTree) := do
  match ← peekChar with
  | some '"' => return [← stringLiteral fuel]
  | some '\'' => return [← stringLiteral fuel]
  | _ =>
    if ← tryWord "default" then return []
    else return [← nameNode "identifier"]

/-- A name with another name behind `as`, if one is written. -/
def renamed (fuel : Nat) (kind : String) : Reader ParseTree := do
  let start ← toToken
  let name ← exportName fuel
  let alias_ ← if ← tryWord "as" then exportName fuel else pure []
  node kind start (name ++ alias_)

/-- Names with commas between them, up to the closing brace, which is taken. -/
def specifiers (kind : String) : Nat → List ParseTree → Reader (List ParseTree)
  | 0, _ => stop none
  | fuel + 1, done => do
    if ← tryToken "\x7d" then return done.reverse
    else if done.isEmpty && (← get).next.startsWith "," then
      token ","
      token "\x7d"
      return []
    else
      let t ← renamed fuel kind
      if ← tryToken "," then specifiers kind fuel (t :: done)
      else
        token "\x7d"
        return (t :: done).reverse

/-- `* as name`. -/
def namespaceName (fuel : Nat) (kind : String) : Reader ParseTree := do
  let start ← toToken
  token "*"
  word "as"
  let name ← exportName fuel
  node kind start name

/-- The names in braces, or the namespace, that an import binds. -/
def importNames (fuel : Nat) : Reader ParseTree := do
  let start ← toToken
  if (← get).startsWith "*" then namespaceName fuel "namespace_import"
  else
    token "\x7b"
    let ts ← specifiers "import_specifier" fuel []
    node "named_imports" start ts

def importClause (fuel : Nat) : Reader ParseTree := do
  let start ← toToken
  if (← get).startsWith "*" || (← get).startsWith "\x7b" then
    node "import_clause" start [← importNames fuel]
  else
    let name ← nameNode "identifier"
    if ← tryToken "," then
      let more ← importNames fuel
      node "import_clause" start [name, more]
    else node "import_clause" start [name]

/-- An import past its keyword. -/
def importRest (fuel : Nat) (r : Rules) (start : Nat) : Reader ParseTree := do
  let source ←
    match ← peekChar with
    | some '"' => pure [← stringLiteral fuel]
    | some '\'' => pure [← stringLiteral fuel]
    | _ =>
      let clause ← importClause fuel
      pure [clause, ← fromClause fuel]
  let at_ ← (return (← get).next.offset)
  let attributes ←
    if ((← get).land true false).ended then pure []
    else
      if ← tryWord "with" then
        let object ← asExpression (← objectRule fuel r)
        pure [← node "import_attribute" at_ [object]]
      else pure []
  semicolon false
  node "import_statement" start (source ++ attributes)

/-- A named function where nothing but a declaration may stand, past the word `function`. -/
def functionDeclaration (fuel : Nat) (r : Rules) (start : Nat) : Reader ParseTree := do
  let star ← tryToken "*"
  let name ← nameNode "identifier"
  let params ← parameters fuel r
  let body ← plainBlock fuel r
  node (if star then "generator_function_declaration" else "function_declaration") start
    [name, params, body]

/-- A named class where nothing but a declaration may stand. -/
def classDeclaration (fuel : Nat) (r : Rules) : Reader ParseTree := do
  let start ← toToken
  let decs ← decorators r fuel []
  word "class"
  let (named, parts) ← classRest fuel r
  if named then
    impliedSemicolon false
    node "class_declaration" start (decs ++ parts)
  else stop none

/-- A declaration, where nothing else may stand. -/
def declarationRule (fuel : Nat) (r : Rules) : Reader ParseTree := do
  let start ← toToken
  match ← peekWord with
  | some ("var", after) => set after; declarationRest fuel r "variable_declaration" start
  | some ("let", after) => set after; declarationRest fuel r "lexical_declaration" start
  | some ("const", after) => set after; declarationRest fuel r "lexical_declaration" start
  | some ("using", after) => set after; declarationRest fuel r "using_declaration" start
  | some ("await", after) =>
    set after
    word "using"
    declarationRest fuel r "using_declaration" start
  | some ("function", after) => set after; functionDeclaration fuel r start
  | some ("async", after) =>
    set after
    word "function"
    functionDeclaration fuel r start
  | _ => classDeclaration fuel r

/-- The words with which a declaration begins. -/
def declarationWords : List String :=
  ["var", "let", "const", "function", "class", "async", "using", "await"]

/-- Whether a declaration begins here. -/
def declarationNext (c : Cursor) : Bool :=
  match c.name? with
  | some ("async", after) =>
    match after.onward? true with
    | some d => (d.name?.map Prod.fst) = some "function"
    | none => false
  | some ("await", after) => (after.next.name?.map Prod.fst) = some "using"
  | some ("let", after) => letDeclares true after
  | some (w, _) => declarationWords.contains w
  | none => c.startsWith "@"

/-- What `export default` gives out. -/
def exportDefault (r : Rules) (start : Nat) (before : List ParseTree) :
    Reader ParseTree := do
  let c := (← get).next
  let asValue : Reader ParseTree := do
    let t ← r.expression .statement
    semicolon true
    node "export_statement" start (before ++ [t])
  if declarationNext c then
    let t ← r.statement
    if t.kind = "expression_statement" then
      set c
      asValue
    else node "export_statement" start (before ++ [t])
  else asValue

/-- An export past its keyword. `before` holds the decorators. -/
def exportRest (fuel : Nat) (r : Rules) (start : Nat) (before : List ParseTree) :
    Reader ParseTree := do
  let c := (← get).next
  match before, c.rest with
  | [], '*' :: _ =>
    let names ←
      match (c.advance 1).next.name? with
      | some ("as", _) => pure [← namespaceName fuel "namespace_export"]
      | _ => token "*"; pure []
    let source ← fromClause fuel
    semicolon false
    node "export_statement" start (names ++ [source])
  | [], '{' :: _ =>
    let at_ := c.offset
    token "\x7b"
    let ts ← specifiers "export_specifier" fuel []
    let clause ← node "export_clause" at_ ts
    let source ←
      if ((← get).land true false).ended then pure []
      else
        match ← peekWord with
        | some ("from", _) => pure [← fromClause fuel]
        | _ => pure []
    semicolon false
    node "export_statement" start (clause :: source)
  | _, _ =>
    if ← tryWord "default" then exportDefault r start before
    else
      let t ← declarationRule fuel r
      node "export_statement" start (before ++ [t])

/-! ## Loops and branches -/

def ifRest (fuel : Nat) (r : Rules) (start : Nat) : Reader ParseTree := do
  let condition ← r.parenthesized fuel
  let yes ← r.statement
  match ← peekWord with
  | some ("else", after) =>
    let at_ ← (return (← get).next.offset)
    set after
    let no ← r.statement
    let clause ← node "else_clause" at_ [no]
    node "if_statement" start [condition, yes, clause]
  | _ => node "if_statement" start [condition, yes]

/-- A head in parentheses and a body. -/
def headed (fuel : Nat) (r : Rules) (kind : String) (start : Nat) : Reader ParseTree := do
  let head ← r.parenthesized fuel
  let body ← r.statement
  node kind start [head, body]

def doRest (fuel : Nat) (r : Rules) (start : Nat) : Reader ParseTree := do
  let body ← r.statement
  word "while"
  let condition ← r.parenthesized fuel
  let l := (← get).land true false
  if l.ended then set l.cursor
  else
    match l.cursor.eat? ";" with
    | some c => set c
    | none => modify Cursor.settle
  node "do_statement" start [body, condition]

/-- A part of the head of a `for` up to its semicolon: an expression, or an empty statement. -/
def forPart (fuel : Nat) (r : Rules) : Reader ParseTree := do
  let start ← toToken
  if ← tryToken ";" then node "empty_statement" start []
  else
    let t ← r.expressions fuel .bracketed
    token ";"
    return t

/-- A `for` past the first part of its head. -/
def forRest (fuel : Nat) (r : Rules) (start : Nat) (first : ParseTree) : Reader ParseTree := do
  let condition ← forPart fuel r
  let step ←
    match ← peekChar with
    | some ')' => pure []
    | _ => pure [← r.expressions fuel .bracketed]
  closing ")"
  let body ← r.statement
  node "for_statement" start ([first, condition] ++ step ++ [body])

/-- Whether the word that comes next is `in` or `of`. -/
def stepsNext : Reader Bool := do
  match ← peekWord with
  | some (w, _) => return w = "in" || w = "of"
  | none => return false

/-- A `for` over the members of a value, at `in` or `of`. `left` holds what is bound. -/
def forInRest (fuel : Nat) (r : Rules) (start : Nat) (left : List ParseTree) :
    Reader ParseTree := do
  match ← peekWord with
  | some (w, after) => if w = "in" || w = "of" then set after else stop none
  | none => stop none
  let right ← r.expressions fuel .bracketed
  closing ")"
  let body ← r.statement
  node "for_in_statement" start (left ++ [right, body])

/-- The head of a `for` that begins with a declaration. -/
def forDeclaration (fuel : Nat) (r : Rules) (start : Nat) (kind : String) : Reader ParseTree := do
  let at_ ← toToken
  match ← peekWord with
  | some (_, after) => set after
  | none => stop none
  let name ← binding fuel r
  modify Cursor.settle
  let varies := kind = "variable_declaration"
  let parted := varies && ((← get).land true false).ended
  if !parted && (← stepsNext) then forInRest fuel r start [name]
  else
    let value ← initializer? r ⟨true, false, true⟩
    match value with
    | some v =>
      let closed := ((← get).land true true).ended
      if varies && !closed && (← stepsNext) then forInRest fuel r start [name, v]
      else
        let t ← node "variable_declarator" name.span.start [name, v]
        let (valued, ts) ← declarators r fuel true [t]
        semicolon valued
        forRest fuel r start (← node kind at_ ts)
    | none =>
      let t ← node "variable_declarator" name.span.start [name]
      let (valued, ts) ← declarators r fuel false [t]
      semicolon valued
      forRest fuel r start (← node kind at_ ts)

/-- A `for` over the members of a value, past the word that declares what is bound. -/
def forMembers (fuel : Nat) (r : Rules) (start : Nat) : Reader ParseTree := do
  let name ← binding fuel r
  modify Cursor.settle
  forInRest fuel r start [name]

/-- What a `for` may step through its values with: a pattern, or an expression in parentheses. -/
def stepTarget? (x : Reading) : Option ParseTree :=
  match x.pattern with
  | some p => if p.kind = "assignment_pattern" then none else some p
  | none => x.expression.filter (fun t => t.kind = "parenthesized_expression")

/-- The head of a `for` that begins with an expression. -/
def forExpression (fuel : Nat) (r : Rules) (start : Nat) : Reader ParseTree := do
  let c ← get
  let asParts : Reader ParseTree := do
    set c
    let first ← r.expressions fuel .bracketed
    token ";"
    forRest fuel r start first
  let first ← r.operators ⟨false, false, true⟩ 0
  if ← stepsNext then
    match stepTarget? first with
    | some left => orElse (forInRest fuel r start [left]) asParts
    | none => asParts
  else
    let t ← asExpression first
    let more ← r.sequenceTail .bracketed fuel []
    let whole ←
      if more.isEmpty then pure t
      else node "sequence_expression" t.span.start (t :: more)
    token ";"
    forRest fuel r start whole

/-- A `for await`, past its opening parenthesis: it always goes over the members of a value. -/
def forAwait (fuel : Nat) (r : Rules) (start : Nat) : Reader ParseTree := do
  let asTarget : Reader ParseTree := do
    match stepTarget? (← r.operators ⟨false, false, true⟩ 0) with
    | some left => forInRest fuel r start [left]
    | none => stop none
  match ← peekWord with
  | some ("var", after) =>
    set after
    let name ← binding fuel r
    if ← tryAssign then
      let value ← r.expression ⟨false, false, true⟩
      forInRest fuel r start [name, value]
    else forInRest fuel r start [name]
  | some ("const", after) => set after; forMembers fuel r start
  | some ("let", after) => orElse (do set after; forMembers fuel r start) asTarget
  | some ("using", after) => set after; forMembers fuel r start
  | some ("await", after) =>
    match after.next.name? with
    | some ("using", behind) => set behind; forMembers fuel r start
    | _ => asTarget
  | _ => asTarget

def forStatement (fuel : Nat) (r : Rules) (start : Nat) : Reader ParseTree := do
  let awaits ← tryWord "await"
  token "("
  let c := (← get).next
  if awaits then forAwait fuel r start
  else if c.startsWith ";" then forRest fuel r start (← forPart fuel r)
  else
    match c.name? with
    | some ("var", _) => forDeclaration fuel r start "variable_declaration"
    | some ("const", _) => forDeclaration fuel r start "lexical_declaration"
    | some ("let", after) =>
      if letDeclares false after then
        orElse (forDeclaration fuel r start "lexical_declaration") (forExpression fuel r start)
      else forExpression fuel r start
    | some ("using", after) => set after; forMembers fuel r start
    | some ("await", after) =>
      match after.next.name? with
      | some ("using", behind) => set behind; forMembers fuel r start
      | _ => forExpression fuel r start
    | _ => forExpression fuel r start

/-- The statements of a case, up to the next case or the closing brace. -/
def caseStatements (r : Rules) : Nat → List ParseTree → Reader (List ParseTree)
  | 0, _ => stop none
  | fuel + 1, done => do
    match ← peekChar with
    | none => stop none
    | some '}' => return done.reverse
    | _ =>
      match ← peekWord with
      | some ("case", _) => return done.reverse
      | some ("default", _) => return done.reverse
      | _ =>
        let t ← r.statement
        caseStatements r fuel (t :: done)

def cases (r : Rules) : Nat → List ParseTree → Reader (List ParseTree)
  | 0, _ => stop none
  | fuel + 1, done => do
    if ← tryToken "\x7d" then return done.reverse
    else
      let start ← toToken
      if ← tryWord "case" then
        let value ← r.expressions fuel .bracketed
        token ":"
        let inside ← caseStatements r fuel []
        let t ← node "switch_case" start (value :: inside)
        cases r fuel (t :: done)
      else
        word "default"
        token ":"
        let inside ← caseStatements r fuel []
        let t ← node "switch_default" start inside
        cases r fuel (t :: done)

def switchRest (fuel : Nat) (r : Rules) (start : Nat) : Reader ParseTree := do
  let value ← r.parenthesized fuel
  let at_ ← toToken
  token "\x7b"
  let inside ← cases r fuel []
  let body ← node "switch_body" at_ inside
  node "switch_statement" start [value, body]

def catchClause (fuel : Nat) (r : Rules) (start : Nat) : Reader ParseTree := do
  let parameter ←
    if ← tryToken "(" then
      let t ← binding fuel r
      closing ")"
      pure [t]
    else pure []
  let body ← plainBlock fuel r
  node "catch_clause" start (parameter ++ [body])

def tryRest (fuel : Nat) (r : Rules) (start : Nat) : Reader ParseTree := do
  let body ← plainBlock fuel r
  let at_ ← (return (← get).next.offset)
  let handler ←
    if ← tryWord "catch" then pure [← catchClause fuel r at_] else pure []
  let last ← (return (← get).next.offset)
  let finalizer ←
    if ← tryWord "finally" then
      let t ← plainBlock fuel r
      pure [← node "finally_clause" last [t]]
    else pure []
  node "try_statement" start ([body] ++ handler ++ finalizer)

/-! ## Jumps -/

/-- `return`, with or without a value. -/
def returnRest (fuel : Nat) (r : Rules) (start : Nat) : Reader ParseTree := do
  modify Cursor.settle
  let l := (← get).land true false
  if l.ended || l.cursor.startsWith ";" then
    semicolon false
    node "return_statement" start []
  else
    let t ← r.expressions fuel .statement
    semicolon true
    node "return_statement" start [t]

/-- `break` or `continue`, with or without a label. -/
def jumpRest (kind : String) (start : Nat) : Reader ParseTree := do
  let l := (← get).land true false
  let label ←
    match l.ended, l.cursor.name? with
    | false, some _ => pure [← nameNode "statement_identifier"]
    | _, _ => pure []
  semicolon false
  node kind start label

/-- A statement that begins with a word. `begin` stands at the word. -/
def wordStatement (fuel : Nat) (r : Rules) (begin : Cursor) (w : String) (after : Cursor) :
    Reader ParseTree := do
  let start := begin.offset
  match w with
  | "var" => set after; declarationRest fuel r "variable_declaration" start
  | "const" => set after; declarationRest fuel r "lexical_declaration" start
  | "using" => set after; declarationRest fuel r "using_declaration" start
  | "function" => functionStatement fuel r begin after
  | "class" => classStatement fuel r begin []
  | "if" => set after; ifRest fuel r start
  | "for" => set after; forStatement fuel r start
  | "while" => set after; headed fuel r "while_statement" start
  | "with" => set after; headed fuel r "with_statement" start
  | "do" => set after; doRest fuel r start
  | "switch" => set after; switchRest fuel r start
  | "try" => set after; tryRest fuel r start
  | "return" => set after; returnRest fuel r start
  | "break" => set after; jumpRest "break_statement" start
  | "continue" => set after; jumpRest "continue_statement" start
  | "throw" =>
    set after
    let t ← r.expressions fuel .statement
    semicolon true
    node "throw_statement" start [t]
  | "debugger" => set after; semicolon false; node "debugger_statement" start []
  | "import" =>
    let c := after.next
    if c.startsWith "(" || c.startsWith "." || c.startsWith "?." then expressionStatement fuel r
    else
      set after
      importRest fuel r start
  | _ =>
    let c := after.settle.next
    let named := !isReserved w || w = "export"
    if named && w ≠ "undefined" && w ≠ "yield" && c.startsWith ":" then
      let label ← leafTo "statement_identifier" after
      token ":"
      let body ← r.statement
      node "labeled_statement" start [label, body]
    else if w = "let" && letDeclares true after then
      set after
      declarationRest fuel r "lexical_declaration" start
    else if w = "export" then
      match after.onward? true with
      | none => expressionStatement fuel r
      | some d =>
        if (d.startsWith "*" && d.assigning?.isNone) || d.startsWith "\x7b" || d.startsWith "@" ||
            (d.operator?.isNone && d.name?.isSome) then
          set after
          exportRest fuel r start []
        else expressionStatement fuel r
    else
      match after.onward? true with
      | none => expressionStatement fuel r
      | some d =>
        match w, d.name? with
        | "async", some ("function", behind) => functionStatement fuel r begin behind
        | "await", some ("using", behind) =>
          set behind
          declarationRest fuel r "using_declaration" start
        | _, _ => expressionStatement fuel r

def statementRule (fuel : Nat) (r : Rules) : Reader ParseTree := do
  let start ← toToken
  let c ← get
  match c.rest with
  | ';' :: _ =>
    token ";"
    node "empty_statement" start []
  | '{' :: _ => braceStatement fuel r
  | '@' :: _ =>
    let decs ← decorators r fuel []
    if ← tryWord "export" then exportRest fuel r start decs
    else classStatement fuel r c decs
  | _ =>
    match c.name? with
    | some (w, after) => wordStatement fuel r c w after
    | none => expressionStatement fuel r

end LogSweep.Script

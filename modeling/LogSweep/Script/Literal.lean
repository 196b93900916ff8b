-- String, template and regular expression literals.
import LogSweep.Script.Reader

namespace LogSweep.Script

/-- Takes an escape and gives its node. -/
def escapeNode : Reader ParseTree := do
  let c ← get
  match escape? c.rest with
  | some text =>
    set (c.pass text (c.rest.drop text.length))
    node "escape_sequence" c.offset []
  | none => stop none

/-- Takes the characters that satisfy `p` and gives a node for them. -/
def fragmentNode (kind : String) (p : Char → Bool) : Reader ParseTree := do
  let c ← get
  let text := c.rest.takeWhile p
  set (c.pass text (c.rest.drop text.length))
  node kind c.offset []

/-- The parts of a string up to its closing quote. A line end is a gap, in which comments may
stand. -/
def stringParts (quote : Char) : Nat → List ParseTree → Reader (List ParseTree)
  | 0, _ => stop none
  | fuel + 1, done => do
    let c ← get
    match c.rest with
    | [] => stop none
    | d :: _ =>
      if d = quote then
        set (c.advance 1)
        return done.reverse
      else if d = '\\' then
        let t ← escapeNode
        stringParts quote fuel (t :: done)
      else if d = '\r' || d = '\n' then
        let (commented, after) := c.nextComment
        if commented then
          set after
          stringParts quote fuel done
        else if after.rest.head? = some quote then
          set (after.advance 1)
          return done.reverse
        else stop none
      else
        let t ← fragmentNode "string_fragment"
          (fun e => e ≠ quote && e ≠ '\\' && e ≠ '\r' && e ≠ '\n')
        stringParts quote fuel (t :: done)

/-- A string in single or double quotes. -/
def stringLiteral (fuel : Nat) : Reader ParseTree := do
  let start ← toToken
  let c ← get
  match c.rest with
  | q :: _ =>
    if q = '"' || q = '\'' then
      set (c.advance 1)
      let parts ← stringParts q fuel []
      node "string" start parts
    else stop none
  | [] => stop none

/-- The length, in characters, of plain template text. -/
def templateText : List Char → List Char
  | '$' :: '{' :: _ => []
  | c :: cs => if c = '`' || c = '\\' || c = '\x00' then [] else c :: templateText cs
  | [] => []

/-- The parts of a template up to its closing backtick. -/
def templateParts (r : Rules) : Nat → List ParseTree → Reader (List ParseTree)
  | 0, _ => stop none
  | fuel + 1, done => do
    let c ← get
    match c.rest with
    | '`' :: _ =>
      set (c.advance 1)
      return done.reverse
    | '\\' :: _ =>
      let t ← escapeNode
      templateParts r fuel (t :: done)
    | '$' :: '{' :: _ =>
      set (c.advance 2)
      let inner ← r.expressions fuel .bracketed
      token "\x7d"
      let t ← node "template_substitution" c.offset [inner]
      templateParts r fuel (t :: done)
    | _ =>
      match templateText c.rest with
      | [] => stop none
      | text =>
        set (c.pass text (c.rest.drop text.length))
        let t ← node "string_fragment" c.offset []
        templateParts r fuel (t :: done)

def templateLiteral (fuel : Nat) (r : Rules) : Reader ParseTree := do
  let start ← toToken
  token "`"
  let parts ← templateParts r fuel []
  node "template_string" start parts

/-- Passes the comments behind the first slash of a regular expression. Blanks before a comment
belong to it; other blanks belong to the expression. -/
def regexComments : Nat → Reader Unit
  | 0 => stop none
  | fuel + 1 => do
    let c ← get
    let blanks := c.rest.takeWhile (fun e => isBlank e && e ≠ '\n')
    let front := c.pass blanks (c.rest.drop blanks.length)
    if front.startsWith "//" then stop none
    else if front.startsWith "/*" then
      match front.nextComment with
      | (true, after) =>
        set { after with comments := ⟨⟨c.offset, after.offset⟩, false⟩ :: c.comments }
        regexComments fuel
      | (false, _) => return ()
    else return ()

/-- A regular expression, at its first slash. -/
def regexLiteral (fuel : Nat) : Reader ParseTree := do
  let start ← toToken
  token "/"
  regexComments fuel
  let c ← get
  match takeRegex .body c.rest [] with
  | some (d :: body, rest) =>
    set (c.pass (d :: body) rest)
    let pattern ← node "regex_pattern" c.offset []
    set ((← get).advance 1)
    let at_ ← here
    let flags := (← get).rest.takeWhile (fun e => 'a' ≤ e && e ≤ 'z')
    if flags.isEmpty then node "regex" start [pattern]
    else
      set ((← get).advance flags.length)
      let flagNode ← node "regex_flags" at_ []
      node "regex" start [pattern, flagNode]
  | _ => stop none

/-- A number, which has to come next. -/
def numberLiteral : Reader ParseTree := do
  let c := (← get).next
  match numberLength c.rest with
  | 0 => stop none
  | k => leafTo "number" (c.advance k)

end LogSweep.Script

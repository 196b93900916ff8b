-- Markup elements inside script source: `<a b="c">text {d}</a>`.
import LogSweep.Script.Literal

namespace LogSweep.Script

/-! ## Names and references -/

/-- The length of a name with a dash in it, or zero. -/
def dashedLength (cs : List Char) : Nat :=
  let letter := fun c => isLatinLetter c || c = '_' || c = '$'
  match cs with
  | c :: _ =>
    let front := cs.takeWhile (fun d => letter d || isDigit d)
    if letter c && (cs.drop front.length).head? = some '-' then
      (cs.takeWhile (fun d => letter d || isDigit d || d = '-')).length
    else 0
  | [] => 0

/-- A name in a tag, with or without dashes. -/
def tagName (kind : String) : Reader ParseTree := do
  let c := (← get).next
  match dashedLength c.rest with
  | 0 => nameNode kind
  | k => leafTo kind (c.advance k)

/-- Whether a name in a tag comes next. -/
def tagNameNext : Reader Bool := do
  let c := (← get).next
  return dashedLength c.rest ≠ 0 || c.name?.isSome

/-- The length of a character reference such as `&amp;`, or zero. -/
def referenceLength (cs : List Char) : Nat :=
  let closed := fun (front : Nat) (most : Nat) (p : Char → Bool) =>
    let run := ((cs.drop front).takeWhile p).length
    if 0 < run && run ≤ most && (cs.drop (front + run)).head? = some ';' then front + run + 1 else 0
  match cs with
  | '&' :: '#' :: x :: _ => if x = 'x' || x = 'X' then closed 3 6 isHexDigit else closed 2 5 isDigit
  | '&' :: _ => closed 1 30 isLatinLetter
  | _ => 0

/-- Takes a character reference and gives its node. -/
def referenceNode : Reader ParseTree := do
  let c ← get
  match referenceLength c.rest with
  | 0 => stop none
  | k =>
    set (c.advance k)
    node "html_character_reference" c.offset []

/-- The further names of `a.b.c`. -/
def tagPath : Nat → ParseTree → Reader ParseTree
  | 0, _ => stop none
  | fuel + 1, object => do
    if ← tryToken "." then
      let property ← nameNode "property_identifier"
      let t ← node "member_expression" object.span.start
        [object.inField .object, property.inField .property]
      tagPath fuel t
    else return object

/-- The name of an element: `a`, `a.b` or `a:b`. -/
def elementName (fuel : Nat) : Reader ParseTree := do
  let dashed := dashedLength (← get).next.rest ≠ 0
  let first ← tagName "identifier"
  match ← peekChar with
  | some '.' => if dashed then stop none else tagPath fuel first
  | some ':' =>
    token ":"
    let second ← tagName "identifier"
    node "jsx_namespace_name" first.span.start [first, second]
  | _ => return first

/-! ## Attributes -/

/-- Text of a quoted attribute: an ampersand before a letter or `#` begins a reference. -/
def attributeText (quote : Char) : List Char → List Char
  | '&' :: c :: cs =>
    if isLatinLetter c || c = '#' then []
    else '&' :: c :: attributeText quote cs
  | c :: cs => if c = quote || c = '&' then [] else c :: attributeText quote cs
  | [] => []

def attributeParts (quote : Char) : Nat → List ParseTree → Reader (List ParseTree)
  | 0, _ => stop none
  | fuel + 1, done => do
    let c ← get
    match c.rest with
    | [] => stop none
    | d :: _ =>
      if d = quote then
        set (c.advance 1)
        return done.reverse
      else
        match attributeText quote c.rest with
        | [] =>
          let t ← referenceNode
          attributeParts quote fuel (t :: done)
        | text =>
          set (c.pass text (c.rest.drop text.length))
          let t ← node "string_fragment" c.offset []
          attributeParts quote fuel (t :: done)

/-- A quoted attribute value. -/
def attributeString (fuel : Nat) : Reader ParseTree := do
  let start ← toToken
  let c ← get
  match c.rest with
  | q :: _ =>
    set (c.advance 1)
    let parts ← attributeParts q fuel []
    node "string" start parts
  | [] => stop none

/-- An expression in braces; the braces may be empty. -/
def braced (fuel : Nat) (r : Rules) : Reader ParseTree := do
  let start ← toToken
  token "\x7b"
  let inner ←
    match ← peekChar with
    | some '}' => pure []
    | _ =>
      let at_ ← toToken
      if ← tryToken "..." then
        let t ← r.expression .bracketed
        pure [← node "spread_element" at_ [t]]
      else pure [← r.expressions fuel .bracketed]
  token "\x7d"
  node "jsx_expression" start inner

def attributeValue (fuel : Nat) (r : Rules) : Reader ParseTree := do
  match ← peekChar with
  | some '{' => braced fuel r
  | some '<' => r.element
  | some '"' => attributeString fuel
  | some '\'' => attributeString fuel
  | _ => stop none

/-- A named attribute, with or without a value. -/
def attributeNode (fuel : Nat) (r : Rules) : Reader ParseTree := do
  let first ← tagName "property_identifier"
  let name ←
    if ← tryToken ":" then
      let second ← tagName "identifier"
      node "jsx_namespace_name" first.span.start
        [mkNode "identifier" first.span.start first.span.stop [], second]
    else pure first
  if ← tryToken "=" then
    let value ← attributeValue fuel r
    node "jsx_attribute" name.span.start [name, value]
  else node "jsx_attribute" name.span.start [name]

def attributes (r : Rules) : Nat → List ParseTree → Reader (List ParseTree)
  | 0, _ => stop none
  | fuel + 1, done => do
    match ← peekChar with
    | some '{' =>
      let t ← braced fuel r
      attributes r fuel (t :: done)
    | _ =>
      if ← tagNameNext then
        let t ← attributeNode fuel r
        attributes r fuel (t :: done)
      else return done.reverse

/-! ## Elements -/

/-- Whether text between tags counts: blanks that follow a line end do not. -/
def countsAsText (afterLineEnd : Bool) : List Char → Bool
  | [] => false
  | c :: cs =>
    if c = '\n' then countsAsText true cs
    else if afterLineEnd && isPlainBlank c then countsAsText true cs
    else true

/-- Passes the markup comment that stands here, up to the end of its line. It counts from
`start`, where the blanks before it begin. -/
def passMarkupComment (start : Nat) : Reader Unit := do
  let c ← get
  let text := c.rest.takeWhile (fun d => !isLineEnd d && d ≠ '\x00')
  let after := c.pass text (c.rest.drop text.length)
  set { after with comments := ⟨⟨start, after.offset⟩, true⟩ :: after.comments }

/-- The children of an element, up to its closing tag. -/
def elementChildren (r : Rules) : Nat → List ParseTree → Reader (List ParseTree)
  | 0, _ => stop none
  | fuel + 1, done => do
    let c ← get
    let text := c.rest.takeWhile (fun d => !"<>\x7b\x7d&\x00".toList.contains d)
    if countsAsText false text then
      set (c.pass text (c.rest.drop text.length))
      let t ← node "jsx_text" c.offset []
      elementChildren r fuel (t :: done)
    else
      set (c.pass text (c.rest.drop text.length))
      match (← get).rest with
      | '<' :: '!' :: '-' :: '-' :: _ =>
        passMarkupComment c.offset
        elementChildren r fuel done
      | '<' :: '/' :: _ => return done.reverse
      | '<' :: _ =>
        let t ← r.element
        elementChildren r fuel (t :: done)
      | '{' :: _ =>
        let t ← braced fuel r
        elementChildren r fuel (t :: done)
      | '&' :: _ =>
        let t ← referenceNode
        elementChildren r fuel (t :: done)
      | _ => stop none

def closingTag (fuel : Nat) : Reader ParseTree := do
  let start ← toToken
  token "</"
  let name ← if ← tagNameNext then pure [← elementName fuel] else pure []
  token ">"
  node "jsx_closing_element" start name

/-- An element, at its `<`. -/
def elementRule (fuel : Nat) (r : Rules) : Reader ParseTree := do
  let start ← toToken
  token "<"
  let inside ←
    if ← tagNameNext then
      let name ← elementName fuel
      let more ← attributes r fuel []
      pure (name :: more)
    else pure []
  if !inside.isEmpty && (← get).next.startsWith "/>" then
    token "/>"
    node "jsx_self_closing_element" start inside
  else
    token ">"
    let opening ← node "jsx_opening_element" start inside
    let kids ← elementChildren r fuel []
    let closing ← closingTag fuel
    node "jsx_element" start (opening :: (kids ++ [closing]))

end LogSweep.Script

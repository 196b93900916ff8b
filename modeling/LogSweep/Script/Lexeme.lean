-- The lexemes of script source that need more than one look ahead: names, numbers, escapes,
-- regular expressions and operators. Each is the longest that stands at the place.
import LogSweep.Script.Cursor

namespace LogSweep.Script

/-! ## Names -/

/-- Where the walk over a name stands. -/
inductive NameWalk
  | letters
  /-- Inside `\u{…}`; an escape that does not close ends the name at `front`. -/
  | braced (digits : Bool) (front back : List Char)

/-- Splits off the letters and escapes of a name; `front` is what was read, latest first. -/
def takeName : NameWalk → List Char → List Char → List Char × List Char
  | .letters, '\\' :: 'u' :: '{' :: cs, front =>
    takeName (.braced false front ('\\' :: 'u' :: '{' :: cs)) cs ('{' :: 'u' :: '\\' :: front)
  | .letters, '\\' :: 'u' :: a :: b :: c :: d :: cs, front =>
    if isHexDigit a && isHexDigit b && isHexDigit c && isHexDigit d then
      takeName .letters cs (d :: c :: b :: a :: 'u' :: '\\' :: front)
    else (front.reverse, '\\' :: 'u' :: a :: b :: c :: d :: cs)
  | .letters, c :: cs, front =>
    if isNamePart c then takeName .letters cs (c :: front) else (front.reverse, c :: cs)
  | .letters, [], front => (front.reverse, [])
  | .braced digits front back, '}' :: cs, more =>
    if digits then takeName .letters cs ('}' :: more) else (front.reverse, back)
  | .braced _ front back, c :: cs, more =>
    if isHexDigit c then takeName (.braced true front back) cs (c :: more)
    else (front.reverse, back)
  | .braced _ front back, [], _ => (front.reverse, back)

/-- The name that stands here, as written. -/
def Cursor.name? (c : Cursor) : Option (String × Cursor) :=
  match c.rest with
  | d :: _ =>
    if isNameStart d || d = '\\' then
      match takeName .letters c.rest [] with
      | ([], _) => none
      | (text, rest) => some (String.ofList text, c.pass text rest)
    else none
  | [] => none

/-- The private name, with its `#`, that stands here. -/
def Cursor.privateName? (c : Cursor) : Option Cursor :=
  match c.rest with
  | '#' :: _ => ((c.advance 1).name?).map Prod.snd
  | _ => none

/-- Words that never stand for a name of their own. -/
def reservedWords : List String :=
  ["break", "case", "catch", "class", "const", "continue", "debugger", "default", "delete", "do",
    "else", "export", "extends", "false", "finally", "for", "function", "if", "import", "in",
    "instanceof", "new", "null", "return", "super", "switch", "this", "throw", "true", "try",
    "typeof", "var", "void", "while", "with"]

def isReserved (word : String) : Bool := reservedWords.contains word

/-! ## Numbers -/

/-- The length of a run of digits, in which single underscores may stand. -/
def digitRun (p : Char → Bool) : List Char → Nat
  | '_' :: c :: cs => if p c then 2 + digitRun p cs else 0
  | c :: cs => if p c then 1 + digitRun p cs else 0
  | [] => 0

/-- As `digitRun`, for a run that begins with a digit. -/
def digits (p : Char → Bool) (cs : List Char) : Nat :=
  match cs with
  | c :: _ => if p c then digitRun p cs else 0
  | [] => 0

/-- The length of an exponent, or none. -/
def exponentLength (cs : List Char) : Nat :=
  match cs with
  | e :: more =>
    if e = 'e' || e = 'E' then
      match more with
      | s :: after =>
        if s = '+' || s = '-' then
          match digits isDigit after with
          | 0 => 0
          | k => k + 2
        else
          match digits isDigit more with
          | 0 => 0
          | k => k + 1
      | [] => 0
    else 0
  | [] => 0

/-- Whether a run of digits may be followed by a point or an exponent. -/
def isWholePart (cs : List Char) : Bool :=
  match cs with
  | '0' :: c :: _ => c ≠ '0' && c ≠ '_'
  | _ => true

def decimalLength (cs : List Char) : Nat :=
  match digits isDigit cs, cs with
  | 0, '.' :: more =>
    match digits isDigit more with
    | 0 => 0
    | k => 1 + k + exponentLength (more.drop k)
  | 0, _ => 0
  | k, _ =>
    match cs.drop k with
    | 'n' :: _ => k + 1
    | '.' :: more =>
      if isWholePart (cs.take k) then
        let m := digits isDigit more
        k + 1 + m + exponentLength (more.drop m)
      else k
    | more => if isWholePart (cs.take k) then k + exponentLength more else k

/-- The digits that a radix mark such as `x` calls for. -/
def radixDigit? (c : Char) : Option (Char → Bool) :=
  if c = 'x' || c = 'X' then some isHexDigit
  else if c = 'o' || c = 'O' then some isOctalDigit
  else if c = 'b' || c = 'B' then some isBinaryDigit
  else none

/-- The length of the number that stands here, or zero. -/
def numberLength (cs : List Char) : Nat :=
  match cs with
  | '0' :: r :: more =>
    match radixDigit? r with
    | some p =>
      match digits p more with
      | 0 => decimalLength cs
      | k => if (more.drop k).head? = some 'n' then k + 3 else k + 2
    | none => decimalLength cs
  | _ => decimalLength cs

/-! ## Escapes and regular expressions -/

/-- The characters of the escape that stands here, its backslash included. -/
def escape? (cs : List Char) : Option (List Char) :=
  match cs with
  | '\\' :: 'x' :: a :: b :: _ =>
    if isHexDigit a && isHexDigit b then some ['\\', 'x', a, b] else none
  | '\\' :: 'u' :: '{' :: more =>
    let hex := more.takeWhile isHexDigit
    if !hex.isEmpty && (more.drop hex.length).head? = some '}' then
      some ('\\' :: 'u' :: '{' :: (hex ++ ['}']))
    else none
  | '\\' :: 'u' :: a :: b :: c :: d :: _ =>
    if isHexDigit a && isHexDigit b && isHexDigit c && isHexDigit d then
      some ['\\', 'u', a, b, c, d]
    else none
  | '\\' :: c :: more =>
    if isOctalDigit c then some ('\\' :: ((c :: more).take 3).takeWhile isOctalDigit)
    else if c = 'x' || c = 'u' then none
    else
      match more with
      | d :: _ => if (c = '\r' || c = '?') && isLineEnd d then some ['\\', c, d] else some ['\\', c]
      | [] => some ['\\', c]
  | _ => none

/-- Where the walk over the body of a regular expression stands. -/
inductive RegexWalk
  | body
  | escaped
  | set
  | setEscaped

/-- Splits a regular expression, past its first slash, at the slash that closes it. -/
def takeRegex : RegexWalk → List Char → List Char → Option (List Char × List Char)
  | _, [], _ => none
  | .body, c :: cs, front =>
    if c = '/' then some (front.reverse, c :: cs)
    else if c = '\n' then none
    else if c = '\\' then takeRegex .escaped cs (c :: front)
    else if c = '[' then takeRegex .set cs (c :: front)
    else takeRegex .body cs (c :: front)
  | .escaped, c :: cs, front => if c = '\n' then none else takeRegex .body cs (c :: front)
  | .set, c :: cs, front =>
    if c = ']' then takeRegex .body cs (c :: front)
    else if c = '\n' then none
    else if c = '\\' then takeRegex .setEscaped cs (c :: front)
    else takeRegex .set cs (c :: front)
  | .setEscaped, c :: cs, front => if c = '\n' then none else takeRegex .set cs (c :: front)

/-! ## Operators -/

/-- How tightly an operator between two operands binds, and whether it groups to the right. -/
structure Binding where
  level : Nat
  right : Bool

/-- The level of `a ? b : c`. -/
def choiceLevel : Nat := 1

/-- The operators between two operands, longer ones before their beginnings. The ones that
assign are listed apart. -/
def operators : List (String × Binding) :=
  [("===", ⟨7, false⟩), ("!==", ⟨7, false⟩), (">>>", ⟨9, false⟩), ("**", ⟨12, true⟩),
    ("==", ⟨7, false⟩), ("!=", ⟨7, false⟩), ("<=", ⟨8, false⟩), (">=", ⟨8, false⟩),
    ("<<", ⟨9, false⟩), (">>", ⟨9, false⟩), ("&&", ⟨3, false⟩), ("||", ⟨2, false⟩),
    ("??", ⟨1, false⟩), ("+", ⟨10, false⟩), ("-", ⟨10, false⟩), ("*", ⟨11, false⟩),
    ("/", ⟨11, false⟩), ("%", ⟨11, false⟩), ("<", ⟨8, false⟩), (">", ⟨8, false⟩),
    ("&", ⟨6, false⟩), ("^", ⟨5, false⟩), ("|", ⟨4, false⟩)]

/-- The operators that assign and compute, longer ones before their beginnings. -/
def assigningOperators : List String :=
  [">>>=", "**=", "<<=", ">>=", "&&=", "||=", "??=", "+=", "-=", "*=", "/=", "%=", "^=", "&=", "|="]

def Cursor.assigning? (c : Cursor) : Option Cursor := assigningOperators.findSome? c.eat?

/-- The operator between two operands that stands here. Increments and assignments are none. -/
def Cursor.operator? (c : Cursor) : Option (Binding × Cursor) :=
  if c.startsWith "++" || c.startsWith "--" || c.startsWith "=>" || c.assigning?.isSome then none
  else
    match c.rest with
    | 'i' :: 'n' :: _ =>
      match c.name? with
      | some ("in", after) => some (⟨8, false⟩, after)
      | some ("instanceof", after) => some (⟨8, false⟩, after)
      | _ => none
    | _ => operators.findSome? (fun (text, b) => (c.eat? text).map (fun after => (b, after)))

end LogSweep.Script

-- Values in TOML: keys and values, tables under headers, and tables within a line.
import LogSweep.Data.Value

namespace LogSweep.Data.Toml

/-! ## Characters -/

def isBlank (c : Char) : Bool := c = ' ' || c = '\t'

/-- Whether a character may not stand in a text or a comment. -/
def isControl (c : Char) : Bool := (c.toNat < 0x20 && c ≠ '\t') || c.toNat = 0x7F

def isBareKeyChar (c : Char) : Bool := c.isAlphanum || c = '_' || c = '-'

def skipBlank (cs : List Char) : List Char := cs.dropWhile isBlank

/-- Takes a line end off the front. -/
def lineEnd? : List Char → Option (List Char)
  | '\n' :: cs => some cs
  | '\r' :: '\n' :: cs => some cs
  | _ => none

/-- Skips a comment, if one stands here. -/
def skipComment : List Char → List Char
  | '#' :: cs => cs.dropWhile (fun c => !isControl c)
  | cs => cs

/-- Skips what may stand after the contents of a line, with the line end. -/
def endLine? (cs : List Char) : Option (List Char) :=
  match skipComment (skipBlank cs) with
  | [] => some []
  | rest => lineEnd? rest

/-- Skips blanks, line ends and comments. -/
def skipLines : Nat → List Char → List Char
  | 0, cs => cs
  | n + 1, cs =>
    let rest := skipComment (skipBlank cs)
    match lineEnd? rest with
    | some after => skipLines n after
    | none => rest

/-! ## Texts -/

def hexValue? (digits : List Char) : Option Nat :=
  digits.foldlM (fun n c =>
    if '0' ≤ c && c ≤ '9' then some (16 * n + (c.toNat - '0'.toNat))
    else if 'a' ≤ c && c ≤ 'f' then some (16 * n + (c.toNat - 'a'.toNat + 10))
    else if 'A' ≤ c && c ≤ 'F' then some (16 * n + (c.toNat - 'A'.toNat + 10))
    else none) 0

/-- Reads a character given by so many digits. -/
def readCode (count : Nat) (cs : List Char) : Option (Char × List Char) := do
  let digits := cs.take count
  if digits.length < count then none
  let n ← hexValue? digits
  if n.isValidChar then return (Char.ofNat n, cs.drop count) else none

/-- Reads what follows a backslash. -/
def readEscape : List Char → Option (Char × List Char)
  | 'b' :: cs => some ('\x08', cs)
  | 't' :: cs => some ('\t', cs)
  | 'n' :: cs => some ('\n', cs)
  | 'f' :: cs => some ('\x0c', cs)
  | 'r' :: cs => some ('\r', cs)
  | '"' :: cs => some ('"', cs)
  | '\\' :: cs => some ('\\', cs)
  | 'u' :: cs => readCode 4 cs
  | 'U' :: cs => readCode 8 cs
  | _ => none

/-- Reads a text on one line up to its closing quote. -/
def readBasic : Nat → List Char → Option (List Char × List Char)
  | 0, _ => none
  | n + 1, cs => do
    match cs with
    | '"' :: rest => return ([], rest)
    | '\\' :: rest =>
      let (c, rest) ← readEscape rest
      let (tail, rest) ← readBasic n rest
      return (c :: tail, rest)
    | c :: rest =>
      if isControl c then none
      else
        let (tail, rest) ← readBasic n rest
        return (c :: tail, rest)
    | [] => none

/-- Reads a text without escapes up to its closing quote. -/
def readLiteral (cs : List Char) : Option (List Char × List Char) :=
  let body := cs.takeWhile (fun c => c ≠ '\'' && !isControl c)
  match cs.drop body.length with
  | '\'' :: rest => some (body, rest)
  | _ => none

/-- Splits off the quotes that stand here: those that belong to the text, when there are enough
to close it. -/
def closing? (quote : Char) (cs : List Char) : Option (List Char × List Char) :=
  let count := min 5 (cs.takeWhile (· = quote)).length
  if 3 ≤ count then some (List.replicate (count - 3) quote, cs.drop count) else none

/-- Skips the line end right after the opening quotes. -/
def dropFirstEnd (cs : List Char) : List Char := (lineEnd? cs).getD cs

/-- Skips blanks and line ends. -/
def skipSpace : Nat → List Char → List Char
  | 0, cs => cs
  | n + 1, cs =>
    let rest := skipBlank cs
    match lineEnd? rest with
    | some after => skipSpace n after
    | none => rest

/-- Reads a text over several lines. A backslash at the end of a line joins what follows. -/
def readLongBasic : Nat → List Char → Option (List Char × List Char)
  | 0, _ => none
  | n + 1, cs =>
    match closing? '"' cs with
    | some found => some found
    | none => do
      match lineEnd? cs with
      | some rest =>
        let (tail, rest) ← readLongBasic n rest
        return ('\n' :: tail, rest)
      | none =>
        match cs with
        | '\\' :: rest =>
          match lineEnd? (skipBlank rest) with
          | some after => readLongBasic n (skipSpace after.length after)
          | none =>
            let (c, rest) ← readEscape rest
            let (tail, rest) ← readLongBasic n rest
            return (c :: tail, rest)
        | c :: rest =>
          if isControl c then none
          else
            let (tail, rest) ← readLongBasic n rest
            return (c :: tail, rest)
        | [] => none

/-- Reads a text over several lines without escapes. -/
def readLongLiteral : Nat → List Char → Option (List Char × List Char)
  | 0, _ => none
  | n + 1, cs =>
    match closing? '\'' cs with
    | some found => some found
    | none => do
      match lineEnd? cs with
      | some rest =>
        let (tail, rest) ← readLongLiteral n rest
        return ('\n' :: tail, rest)
      | none =>
        match cs with
        | c :: rest =>
          if isControl c then none
          else
            let (tail, rest) ← readLongLiteral n rest
            return (c :: tail, rest)
        | [] => none

/-! ## Numbers and dates -/

/-- Whether these are digits of a kind, with lone underscores between them. -/
def isDigitRun (p : Char → Bool) : List Char → Bool
  | [] => false
  | [c] => p c
  | c :: '_' :: cs => p c && isDigitRun p cs
  | c :: cs => p c && isDigitRun p cs

def dropSign : List Char → List Char
  | '+' :: cs => cs
  | '-' :: cs => cs
  | cs => cs

/-- Whether these are decimal digits without a needless zero in front. -/
def isWhole (cs : List Char) : Bool :=
  isDigitRun Char.isDigit cs && (cs.length = 1 || cs.head? ≠ some '0')

def isHexDigit (c : Char) : Bool := (hexValue? [c]).isSome

def isInteger : List Char → Bool
  | '0' :: 'x' :: cs => isDigitRun isHexDigit cs
  | '0' :: 'o' :: cs => isDigitRun (fun c => '0' ≤ c && c ≤ '7') cs
  | '0' :: 'b' :: cs => isDigitRun (fun c => c = '0' || c = '1') cs
  | cs => isWhole (dropSign cs)

/-- The number that digits write, whatever underscores stand between them. -/
def numeral (radix : Nat) (cs : List Char) : Nat :=
  cs.foldl (fun n c => if c = '_' then n else radix * n + (hexValue? [c]).getD 0) 0

/-- Whether an integer fits into the widest types, of 128 bits with a sign or without one. -/
def fitsInteger : List Char → Bool
  | '0' :: 'x' :: cs => numeral 16 cs < 1 <<< 128
  | '0' :: 'o' :: cs => numeral 8 cs < 1 <<< 128
  | '0' :: 'b' :: cs => numeral 2 cs < 1 <<< 128
  | '-' :: cs => numeral 10 cs ≤ 1 <<< 127
  | cs => numeral 10 (dropSign cs) < 1 <<< 128

/-- Whether these are a number with a fraction, an exponent or both. -/
def isFloat (cs : List Char) : Bool :=
  let body := dropSign cs
  let mantissa := body.takeWhile (fun c => c ≠ 'e' && c ≠ 'E')
  let exponent := body.drop mantissa.length
  let whole := mantissa.takeWhile (· ≠ '.')
  let fraction := mantissa.drop whole.length
  let hasExponent := !exponent.isEmpty && isDigitRun Char.isDigit (dropSign exponent.tail)
  let hasFraction := !fraction.isEmpty && isDigitRun Char.isDigit fraction.tail
  body = ['i', 'n', 'f'] || body = ['n', 'a', 'n'] ||
    (isWhole whole && (fraction.isEmpty || hasFraction) && (exponent.isEmpty || hasExponent) &&
      (hasFraction || hasExponent))

/-- The number of so many decimal digits. -/
def decimal? (count : Nat) (cs : List Char) : Option (Nat × List Char) :=
  let digits := cs.take count
  if digits.length = count && digits.all Char.isDigit then
    some (digits.foldl (fun n c => 10 * n + (c.toNat - '0'.toNat)) 0, cs.drop count)
  else none

def isLeapYear (year : Nat) : Bool := year % 4 = 0 && (year % 100 ≠ 0 || year % 400 = 0)

def daysIn (year month : Nat) : Nat :=
  if month = 2 then (if isLeapYear year then 29 else 28)
  else if month = 4 || month = 6 || month = 9 || month = 11 then 30
  else 31

/-- Takes a date off the front. -/
def dropDate? (cs : List Char) : Option (List Char) := do
  let (year, cs) ← decimal? 4 cs
  let '-' :: cs := cs | none
  let (month, cs) ← decimal? 2 cs
  let '-' :: cs := cs | none
  let (day, cs) ← decimal? 2 cs
  if 1 ≤ month && month ≤ 12 && 1 ≤ day && day ≤ daysIn year month then return cs else none

/-- Takes a time of day off the front. -/
def dropTime? (cs : List Char) : Option (List Char) := do
  let (hour, cs) ← decimal? 2 cs
  let ':' :: cs := cs | none
  let (minute, cs) ← decimal? 2 cs
  let ':' :: cs := cs | none
  let (second, cs) ← decimal? 2 cs
  if 24 ≤ hour || 60 ≤ minute || 61 ≤ second then none
  match cs with
  | '.' :: rest =>
    let digits := rest.takeWhile Char.isDigit
    if digits.isEmpty then none else return rest.drop digits.length
  | _ => return cs

/-- Whether this is the distance of a clock from the universal one. -/
def isOffset : List Char → Bool
  | ['Z'] => true
  | ['z'] => true
  | s :: cs =>
    if s = '+' || s = '-' then
      match decimal? 2 cs with
      | some (hour, ':' :: rest) =>
        match decimal? 2 rest with
        | some (minute, []) => hour < 24 && minute < 60
        | _ => false
      | _ => false
    else false
  | [] => false

def isDateTime (cs : List Char) : Bool :=
  match dropDate? cs with
  | some [] => true
  | some (s :: rest) =>
    (s = 'T' || s = 't' || s = ' ') &&
      match dropTime? rest with
      | some after => after.isEmpty || isOffset after
      | none => false
  | none => dropTime? cs = some []

def isScalarChar (c : Char) : Bool :=
  c.isAlphanum || c = '_' || c = '-' || c = '+' || c = '.' || c = ':'

/-- The characters of a number, a date or a word. One blank may part a date from its time. -/
def takeScalar (cs : List Char) : List Char × List Char :=
  let front := cs.takeWhile isScalarChar
  let back := cs.drop front.length
  match dropDate? front, back with
  | some [], ' ' :: d :: rest =>
    if d.isDigit then
      let time := (d :: rest).takeWhile isScalarChar
      (front ++ ' ' :: time, (d :: rest).drop time.length)
    else (front, back)
  | _, _ => (front, back)

def readScalar (cs : List Char) : Option (Value × List Char) :=
  let (token, rest) := takeScalar cs
  if token = ['t', 'r', 'u', 'e'] then some (.bool true, rest)
  else if token = ['f', 'a', 'l', 's', 'e'] then some (.bool false, rest)
  else if isInteger token then
    if fitsInteger token then some (.number (String.ofList token), rest) else none
  else if isFloat token then some (.number (String.ofList token), rest)
  else if isDateTime token then some (.other, rest)
  else none

/-! ## Tables -/

/-- How a table came about. -/
inductive TableKind
  /-- By a header of its own. -/
  | explicit
  /-- By the header of a table inside. -/
  | implicit
  /-- By a dotted key. -/
  | dotted
  deriving DecidableEq, Repr

/-- What stands under a key while a text is read. -/
inductive Node
  | value (v : Value)
  | table (kind : TableKind) (fields : List (String × Node))
  /-- Tables under one header written again and again, the latest first. -/
  | tables (items : List (List (String × Node)))

abbrev Fields := List (String × Node)

namespace Node

mutual

def toValue : Node → Value
  | .value v => v
  | .table _ fields => .table (fieldValues fields)
  | .tables items => .list (itemValues items).reverse

def fieldValues : List (String × Node) → List (String × Value)
  | [] => []
  | (k, n) :: fs => (k, n.toValue) :: fieldValues fs

def itemValues : List (List (String × Node)) → List Value
  | [] => []
  | fs :: rest => .table (fieldValues fs) :: itemValues rest

end

end Node

def setField (key : String) (node : Node) (fields : Fields) : Fields :=
  fields.map (fun f => if f.1 = key then (key, node) else f)

/-- Changes the table at the end of a path, making those on the way that are missing. A dotted
key does not go into a table that has a header of its own, and nothing goes into a value. -/
def extend (viaDots : Bool) (change : TableKind → Fields → Option Fields) :
    List String → TableKind → Fields → Option Fields
  | [], kind, fields => change kind fields
  | key :: path, _, fields =>
    match fields.lookup key with
    | none =>
      let kind := if viaDots then TableKind.dotted else .implicit
      (extend viaDots change path kind []).map (fun sub => fields ++ [(key, .table kind sub)])
    | some (.table kind sub) =>
      if viaDots && kind = .explicit then none
      else
        (extend viaDots change path kind sub).map (fun s => setField key (.table kind s) fields)
    | some (.tables (latest :: before)) =>
      (extend viaDots change path .explicit latest).map
        (fun s => setField key (.tables (s :: before)) fields)
    | some _ => none

/-- Sets a key that is not there yet. Dotted keys and plain ones do not share a table. -/
def insertKey (path : List String) (key : String) (v : Value) (kind : TableKind)
    (fields : Fields) : Option Fields :=
  extend true (fun kind fields =>
    if (kind == .dotted) == path.isEmpty || (fields.lookup key).isSome then none
    else some (fields ++ [(key, .value v)])) path kind fields

/-- Opens the table of a header. -/
def openTable (path : List String) (key : String) (root : Fields) : Option Fields :=
  extend false (fun _ fields =>
    match fields.lookup key with
    | none => some (fields ++ [(key, .table .explicit [])])
    | some (.table .implicit sub) => some (setField key (.table .explicit sub) fields)
    | some _ => none) path .explicit root

/-- Adds a table to those of a header. -/
def appendTable (path : List String) (key : String) (root : Fields) : Option Fields :=
  extend false (fun _ fields =>
    match fields.lookup key with
    | none => some (fields ++ [(key, .tables [[]])])
    | some (.tables items) => some (setField key (.tables ([] :: items)) fields)
    | some _ => none) path .explicit root

/-! ## Keys and values -/

def readSimpleKey (cs : List Char) : Option (String × List Char) :=
  match cs with
  | '"' :: rest => (readBasic (rest.length + 1) rest).map (fun r => (String.ofList r.1, r.2))
  | '\'' :: rest => (readLiteral rest).map (fun r => (String.ofList r.1, r.2))
  | _ =>
    let key := cs.takeWhile isBareKeyChar
    if key.isEmpty then none else some (String.ofList key, cs.drop key.length)

/-- Reads a dotted key: the path, its last part, and the rest of the text without blanks. -/
def readKey : Nat → List Char → Option (List String × String × List Char)
  | 0, _ => none
  | n + 1, cs => do
    let (part, rest) ← readSimpleKey (skipBlank cs)
    match skipBlank rest with
    | '.' :: after =>
      let (path, key, rest) ← readKey n after
      return (part :: path, key, rest)
    | rest => return ([], part, rest)

mutual

def readValue : Nat → List Char → Option (Value × List Char)
  | 0, _ => none
  | n + 1, cs =>
    let text := fun (r : List Char × List Char) => (Value.text (String.ofList r.1), r.2)
    match cs with
    | '"' :: '"' :: '"' :: rest =>
      (readLongBasic (rest.length + 1) (dropFirstEnd rest)).map text
    | '\'' :: '\'' :: '\'' :: rest =>
      (readLongLiteral (rest.length + 1) (dropFirstEnd rest)).map text
    | '"' :: rest => (readBasic (rest.length + 1) rest).map text
    | '\'' :: rest => (readLiteral rest).map text
    | '[' :: rest => (readItems n rest).map (fun r => (.list r.1, r.2))
    | '{' :: rest =>
      match skipBlank rest with
      | '}' :: after => some (.table [], after)
      | body => (readInline n [] body).map (fun r => (.table (Node.fieldValues r.1), r.2))
    | _ => readScalar cs

/-- Reads the items of a list over any number of lines, and its closing bracket. -/
def readItems : Nat → List Char → Option (List Value × List Char)
  | 0, _ => none
  | n + 1, cs => do
    match skipLines cs.length cs with
    | ']' :: after => return ([], after)
    | body =>
      let (item, rest) ← readValue n body
      match skipLines rest.length rest with
      | ']' :: after => return ([item], after)
      | ',' :: after =>
        let (items, after) ← readItems n after
        return (item :: items, after)
      | _ => none

/-- Reads the fields of a table within a line, and its closing bracket. -/
def readInline : Nat → Fields → List Char → Option (Fields × List Char)
  | 0, _, _ => none
  | n + 1, fields, cs => do
    let (path, key, rest) ← readKey cs.length cs
    let '=' :: rest := rest | none
    let (value, rest) ← readValue n (skipBlank rest)
    let fields ← insertKey path key value .explicit fields
    match skipBlank rest with
    | '}' :: after => return (fields, after)
    | ',' :: after => readInline n fields after
    | _ => none

end

/-! ## Documents -/

/-- Reads lines into the tables so far, under the header of a path. -/
def readLines : Nat → List String → Fields → List Char → Option Fields
  | 0, _, _, _ => none
  | n + 1, header, root, cs => do
    match skipLines cs.length cs with
    | [] => return root
    | '[' :: '[' :: rest =>
      let (path, key, rest) ← readKey rest.length rest
      let ']' :: ']' :: rest := rest | none
      readLines n (path ++ [key]) (← appendTable path key root) (← endLine? rest)
    | '[' :: rest =>
      let (path, key, rest) ← readKey rest.length rest
      let ']' :: rest := rest | none
      readLines n (path ++ [key]) (← openTable path key root) (← endLine? rest)
    | line =>
      let (path, key, rest) ← readKey line.length line
      let '=' :: rest := rest | none
      let (value, rest) ← readValue (2 * rest.length + 2) (skipBlank rest)
      let root ← extend false (insertKey path key value) header .explicit root
      readLines n header root (← endLine? rest)

/-- Reads a document, with or without a mark of byte order in front. -/
def parse? (text : String) : Option Value := do
  let cs := match text.toList with
    | '\uFEFF' :: rest => rest
    | rest => rest
  let root ← readLines (cs.length + 1) [] [] cs
  return .table (Node.fieldValues root)

end LogSweep.Data.Toml

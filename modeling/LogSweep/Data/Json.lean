-- Values in JSON: a reader for whole texts, and a writer that indents.
import LogSweep.Data.Value

namespace LogSweep.Data.Json

/-! ## Reading -/

def isBlank (c : Char) : Bool := c = ' ' || c = '\t' || c = '\n' || c = '\r'

def hexDigit? (c : Char) : Option Nat :=
  if '0' ≤ c && c ≤ '9' then some (c.toNat - '0'.toNat)
  else if 'a' ≤ c && c ≤ 'f' then some (c.toNat - 'a'.toNat + 10)
  else if 'A' ≤ c && c ≤ 'F' then some (c.toNat - 'A'.toNat + 10)
  else none

/-- Reads the four digits of a code unit. -/
def readUnit : List Char → Option (Nat × List Char)
  | a :: b :: c :: d :: cs => do
    let w ← hexDigit? a
    let x ← hexDigit? b
    let y ← hexDigit? c
    let z ← hexDigit? d
    return (((w * 16 + x) * 16 + y) * 16 + z, cs)
  | _ => none

def isHighSurrogate (n : Nat) : Bool := 0xD800 ≤ n && n ≤ 0xDBFF

def isLowSurrogate (n : Nat) : Bool := 0xDC00 ≤ n && n ≤ 0xDFFF

/-- Reads a character given by its code units. A surrogate without its partner is no character. -/
def readCode (cs : List Char) : Option (Option Char × List Char) := do
  let (high, rest) ← readUnit cs
  if isLowSurrogate high then return (none, rest)
  if !isHighSurrogate high then return (some (Char.ofNat high), rest)
  match rest with
  | '\\' :: 'u' :: more =>
    match readUnit more with
    | some (low, after) =>
      if isLowSurrogate low then
        return (some (Char.ofNat (0x10000 + (high - 0xD800) * 0x400 + (low - 0xDC00))), after)
      else return (none, rest)
    | none => return (none, rest)
  | _ => return (none, rest)

/-- The character that a letter after a backslash stands for. -/
def escaped? : Char → Option Char
  | '"' => some '"'
  | '\\' => some '\\'
  | '/' => some '/'
  | 'b' => some '\x08'
  | 'f' => some '\x0c'
  | 'n' => some '\n'
  | 'r' => some '\r'
  | 't' => some '\t'
  | _ => none

/-- Reads a text after its opening quote. A text with a lone surrogate is read, and is none. -/
def readText : Nat → List Char → Option (Option (List Char) × List Char)
  | 0, _ => none
  | n + 1, cs => do
    match cs with
    | '"' :: rest => return (some [], rest)
    | '\\' :: 'u' :: rest =>
      let (c?, rest) ← readCode rest
      let (tail?, rest) ← readText n rest
      return ((do return (← c?) :: (← tail?)), rest)
    | '\\' :: e :: rest =>
      let c ← escaped? e
      let (tail?, rest) ← readText n rest
      return (tail?.map (c :: ·), rest)
    | c :: rest =>
      if c = '\\' || c.toNat < 0x20 then none
      else
        let (tail?, rest) ← readText n rest
        return (tail?.map (c :: ·), rest)
    | [] => none

/-- Reads at least one digit. -/
def readDigits (cs : List Char) : Option (List Char × List Char) :=
  let digits := cs.takeWhile Char.isDigit
  if digits.isEmpty then none else some (digits, cs.drop digits.length)

def readInteger : List Char → Option (List Char × List Char)
  | '0' :: cs => some (['0'], cs)
  | cs => readDigits cs

def readFraction : List Char → Option (List Char × List Char)
  | '.' :: cs => (readDigits cs).map (fun r => ('.' :: r.1, r.2))
  | cs => some ([], cs)

def readExponent : List Char → Option (List Char × List Char)
  | e :: cs =>
    if e = 'e' || e = 'E' then
      match cs with
      | s :: ds =>
        if s = '+' || s = '-' then (readDigits ds).map (fun r => (e :: s :: r.1, r.2))
        else (readDigits cs).map (fun r => (e :: r.1, r.2))
      | [] => none
    else some ([], e :: cs)
  | [] => some ([], [])

def readNumber (cs : List Char) : Option (Value × List Char) := do
  let (sign, cs) := match cs with
    | '-' :: rest => (['-'], rest)
    | _ => ([], cs)
  let (whole, cs) ← readInteger cs
  let (fraction, cs) ← readFraction cs
  let (exponent, cs) ← readExponent cs
  return (.number (String.ofList (sign ++ whole ++ fraction ++ exponent)), cs)

/-- Reads a key and its colon. As other texts, a key with a lone surrogate is read, and is none. -/
def readKey : List Char → Option (Option String × List Char)
  | '"' :: cs => do
    let (key?, rest) ← readText (cs.length + 1) cs
    match rest.dropWhile isBlank with
    | ':' :: after => return (key?.map String.ofList, after)
    | _ => none
  | _ => none

mutual

def readValue : Nat → List Char → Option (Value × List Char)
  | 0, _ => none
  | n + 1, cs =>
    match cs.dropWhile isBlank with
    | 'n' :: 'u' :: 'l' :: 'l' :: rest => some (.null, rest)
    | 't' :: 'r' :: 'u' :: 'e' :: rest => some (.bool true, rest)
    | 'f' :: 'a' :: 'l' :: 's' :: 'e' :: rest => some (.bool false, rest)
    | '"' :: rest =>
      (readText (rest.length + 1) rest).map (fun r =>
        ((r.1.map (fun s => Value.text (String.ofList s))).getD .other, r.2))
    | '[' :: rest =>
      match rest.dropWhile isBlank with
      | ']' :: after => some (.list [], after)
      | body => (readItems n body).map (fun r => (.list r.1, r.2))
    | '{' :: rest =>
      match rest.dropWhile isBlank with
      | '}' :: after => some (.table [], after)
      | body => (readFields n body).map (fun r => ((r.1.map Value.table).getD .other, r.2))
    | rest => readNumber rest

/-- Reads the items of a list, and its closing bracket. -/
def readItems : Nat → List Char → Option (List Value × List Char)
  | 0, _ => none
  | n + 1, cs => do
    let (item, rest) ← readValue n cs
    match rest.dropWhile isBlank with
    | ']' :: after => return ([item], after)
    | ',' :: after =>
      let (items, after) ← readItems n after
      return (item :: items, after)
    | _ => none

/-- Reads the fields of a table, and its closing bracket. They are none if a key is none. -/
def readFields : Nat → List Char → Option (Option (List (String × Value)) × List Char)
  | 0, _ => none
  | n + 1, cs => do
    let (key?, rest) ← readKey (cs.dropWhile isBlank)
    let (value, rest) ← readValue n rest
    match rest.dropWhile isBlank with
    | '}' :: after => return (key?.map (fun key => [(key, value)]), after)
    | ',' :: after =>
      let (fields?, after) ← readFields n after
      return ((do return (← key?, value) :: (← fields?)), after)
    | _ => none

end

/-- Reads a text that holds one value and nothing else. -/
def parse? (text : String) : Option Value := do
  let cs := text.toList
  let (value, rest) ← readValue (2 * cs.length + 2) cs
  if rest.all isBlank then return value else none

/-! ## Writing -/

def hexChar (n : Nat) : Char := (Nat.digitChar n)

/-- A character as it stands between quotes. -/
def quoteChar (c : Char) : List Char :=
  match c with
  | '"' => ['\\', '"']
  | '\\' => ['\\', '\\']
  | '\x08' => ['\\', 'b']
  | '\x0c' => ['\\', 'f']
  | '\n' => ['\\', 'n']
  | '\r' => ['\\', 'r']
  | '\t' => ['\\', 't']
  | _ =>
    if c.toNat < 0x20 then
      ['\\', 'u', '0', '0', hexChar (c.toNat / 16), hexChar (c.toNat % 16)]
    else [c]

def quote (s : String) : String := String.ofList ('"' :: s.toList.flatMap quoteChar ++ ['"'])

def indent (depth : Nat) : String := String.ofList (List.replicate (2 * depth) ' ')

/-- Lines between two brackets, one step further in. -/
def block (left right : String) (depth : Nat) (lines : List String) : String :=
  if lines.isEmpty then left ++ right
  else
    left ++ "\n" ++ ",\n".intercalate (lines.map (indent (depth + 1) ++ ·)) ++ "\n" ++
      indent depth ++ right

mutual

/-- A value with each item and field on a line of its own. -/
def pretty (depth : Nat) : Value → String
  | .null => "null"
  | .bool b => if b then "true" else "false"
  | .number text => text
  | .text s => quote s
  | .other => "null"
  | .list items => block "[" "]" depth (prettyItems (depth + 1) items)
  | .table fields => block "\x7b" "\x7d" depth (prettyFields (depth + 1) fields)

def prettyItems (depth : Nat) : List Value → List String
  | [] => []
  | v :: vs => pretty depth v :: prettyItems depth vs

def prettyFields (depth : Nat) : List (String × Value) → List String
  | [] => []
  | (k, v) :: fs => (quote k ++ ": " ++ pretty depth v) :: prettyFields depth fs

end

end LogSweep.Data.Json

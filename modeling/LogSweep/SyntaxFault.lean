-- Faults: where and why a text could not be read.
import LogSweep.Lines
import LogSweep.ParseTree
import LogSweep.Text.Word

namespace LogSweep

/-- The first fault of a text, at a line and a column that both count from one. -/
structure SyntaxFault where
  line : Nat
  column : Nat
  detail : String
  deriving DecidableEq, Repr

def SyntaxFault.message (f : SyntaxFault) : String :=
  "syntax error at line " ++ toString f.line ++ ", column " ++ toString f.column ++ ": " ++ f.detail

namespace ParseTree

def isFault (t : ParseTree) : Bool := t.label.missing || t.label.error

/-- Whether a node or one below it is a fault. -/
def hasFault : ParseTree → Bool
  | .name l _ => l.missing || l.error
  | .node l _ cs => l.missing || l.error || hasFaultIn cs
where
  hasFaultIn : List ParseTree → Bool
    | [] => false
    | c :: cs => c.hasFault || hasFaultIn cs

/-- Looks for a fault among nodes still to be visited, passing over those without one. -/
def findFault : Nat → List ParseTree → Option ParseTree
  | 0, _ => none
  | _ + 1, [] => none
  | n + 1, t :: stack =>
    if t.isFault then some t
    else if t.hasFault then findFault n (t.children ++ stack)
    else findFault n stack

/-- The first fault in source order. -/
def firstFault? (t : ParseTree) : Option ParseTree := findFault t.size [t]

end ParseTree

/-- The first line of a text, cut after so many characters. -/
def snippet (text : List Char) : String :=
  let line := text.takeWhile (· ≠ '\n')
  let shown := Text.trimBy Text.isSpace line
  if 24 < shown.length then String.ofList (shown.take 24 ++ ['…']) else String.ofList shown

/-- What a fault looks like in the text. -/
def ParseTree.faultDetail (source : String) (t : ParseTree) : String :=
  if t.label.missing then "missing `" ++ t.kind ++ "`"
  else if t.label.error then
    "unexpected `" ++
      snippet ((Text.slice? source.toList t.span.start t.span.stop).getD []) ++ "`"
  else "unrecognized syntax"

/-- Describes the first fault of a tree that has one. -/
def SyntaxFault.ofTree (source : String) (root : ParseTree) : SyntaxFault :=
  let t := root.firstFault?.getD root
  let (line, column) := (Lines.ofSource source).position t.span.start
  ⟨line, column, t.faultDetail source⟩

end LogSweep

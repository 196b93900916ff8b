-- Strategies: what takes the place of a call.
import LogSweep.Text.Word

namespace LogSweep

inductive Strategy
  /-- The call in a comment. -/
  | comment
  /-- `null`, and the call in a comment. -/
  | nullComment
  /-- A text in which each `{call}` stands for the call. -/
  | template (text : String)
  deriving DecidableEq, Repr

/-- A text that names no strategy. -/
structure UnknownStrategy where
  text : String
  deriving DecidableEq, Repr

def UnknownStrategy.message (e : UnknownStrategy) : String :=
  "unknown strategy `" ++ e.text ++
    "`: expected `comment`, `null`, or a template containing `\x7bcall\x7d`"

namespace Strategy

/-- The mark for the call in a template. -/
def mark : List Char := "\x7bcall\x7d".toList

/-- Puts a call at each mark of a template, from left to right. What is put in is not looked
at again. -/
def expand (call : List Char) : List Char → List Char
  | '{' :: 'c' :: 'a' :: 'l' :: 'l' :: '}' :: cs => call ++ expand call cs
  | c :: cs => c :: expand call cs
  | [] => []

def apply : Strategy → String → String
  | .comment, call => "/* " ++ call ++ " */"
  | .nullComment, call => "null /* " ++ call ++ " */"
  | .template text, call => String.ofList (expand call.toList text.toList)

/-- The strategy as it is written. -/
def display : Strategy → String
  | .comment => "comment"
  | .nullComment => "null"
  | .template text => text

/-- Reads a strategy: a name, or a template with at least one mark. -/
def parse (text : String) : Except UnknownStrategy Strategy :=
  let trimmed := Text.trim text
  if trimmed = "comment" then .ok .comment
  else if trimmed = "null" || trimmed = "null-comment" then .ok .nullComment
  else if Text.contains mark trimmed.toList then .ok (.template trimmed)
  else .error ⟨trimmed⟩

/-- The strategy unless a user says otherwise: where the semicolon goes too, nothing needs to
stand for the value of the call. -/
def standard (removeSemicolon : Bool) : Strategy :=
  if removeSemicolon then .comment else .nullComment

end Strategy

end LogSweep

-- Automatic semicolons: whether a statement may end after its last token with no `;` written.
-- A line end, a closing brace or the end of the text allows it, unless the next line begins
-- with something that carries the statement on.
import LogSweep.Script.Letters

namespace LogSweep.Script

namespace Semicolon

/-- Whether `in` or `instanceof` begins here. The rest of the word is told by its letters. -/
def carriesOnWithWord (cs : List Char) : Bool :=
  match cs with
  | 'n' :: more =>
    match more with
    | c :: _ =>
      if !isLatinLetter c then true
      else if "stanceof".toList.isPrefixOf more then
        match more.drop 8 with
        | d :: _ => !isLatinLetter d
        | [] => true
      else false
    | [] => true
  | _ => false

/-- Whether a new line that begins with this text starts a new statement. -/
def startsStatement (cs : List Char) : Bool :=
  match cs with
  | [] => true
  | '.' :: more => (more.head?.map isDigit).getD false
  | '+' :: more => more.head? = some '+'
  | '-' :: more => more.head? = some '-'
  | '!' :: more => more.head? ≠ some '='
  | 'i' :: more => !carriesOnWithWord more
  | c :: _ => !"`,:;*%><=[(?^|&/".toList.contains c

/-- Where the walk over the text after a token stands. -/
inductive Walk
  /-- On the line of the token. -/
  | sameLine
  /-- On the line of the token, past the opening slash of a comment; `broken` once a block
  comment held a line end. -/
  | comments (broken : Bool)
  | lineComment (broken : Bool)
  | blockComment (broken : Bool)
  /-- On a later line. -/
  | nextLine
  | nextLineComment
  | nextBlockComment

/-- The walk. `lenient` says that a comment up to a line end is enough, which holds where no
operator could follow. The mark NUL counts as the end of the text. -/
def walk (lenient : Bool) : Walk → List Char → Bool
  | .sameLine, [] => true
  | .sameLine, '/' :: '/' :: cs => walk lenient (.lineComment false) cs
  | .sameLine, '/' :: '*' :: cs => walk lenient (.blockComment false) cs
  | .sameLine, c :: cs =>
    if c = '\x00' || c = '}' then true
    else if isLineEnd c then walk lenient .nextLine cs
    else if isPlainBlank c then walk lenient .sameLine cs
    else false
  | .comments _, [] => lenient
  | .comments b, '/' :: '/' :: cs => walk lenient (.lineComment b) cs
  | .comments b, '/' :: '*' :: cs => walk lenient (.blockComment b) cs
  | .comments b, c :: cs =>
    if isPlainBlank c then walk lenient (.comments b) cs
    else if c = '/' then false
    else if lenient && c ≠ ',' && c ≠ '=' then true
    else if c = '}' then true
    else if isLineEnd c then walk lenient .nextLine cs
    else false
  | .lineComment _, [] => lenient
  | .lineComment b, c :: cs =>
    if c = '\n' then walk lenient (.comments b) cs
    else if isLineSeparator c then lenient || walk lenient .nextLine cs
    else if c = '\x00' then lenient
    else walk lenient (.lineComment b) cs
  | .blockComment _, [] => lenient
  | .blockComment b, '*' :: '/' :: '/' :: '/' :: cs => walk lenient (.lineComment b) cs
  | .blockComment b, '*' :: '/' :: '/' :: '*' :: cs => walk lenient (.blockComment b) cs
  | .blockComment _, '*' :: '/' :: '/' :: _ => false
  | .blockComment b, '*' :: '/' :: cs =>
    match cs with
    | [] => b && lenient
    | c :: more =>
      if b && lenient && c ≠ ',' && c ≠ '=' then true
      else if c = '}' then true
      else if isLineEnd c then walk lenient .nextLine more
      else if isPlainBlank c then walk lenient .sameLine more
      else false
  | .blockComment b, c :: cs =>
    if c = '\x00' then lenient else walk lenient (.blockComment (b || isLineEnd c)) cs
  | .nextLine, [] => true
  | .nextLine, '/' :: '/' :: cs => walk lenient .nextLineComment cs
  | .nextLine, '/' :: '*' :: cs => walk lenient .nextBlockComment cs
  | .nextLine, c :: cs =>
    if isPlainBlank c then walk lenient .nextLine cs else startsStatement (c :: cs)
  | .nextLineComment, [] => true
  | .nextLineComment, c :: cs =>
    if c = '\n' then walk lenient .nextLine cs
    else if isLineSeparator c || c = '\x00' then true
    else walk lenient .nextLineComment cs
  | .nextBlockComment, [] => true
  | .nextBlockComment, '*' :: '/' :: cs => walk lenient .nextLine cs
  | .nextBlockComment, c :: cs => if c = '\x00' then true else walk lenient .nextBlockComment cs

end Semicolon

/-- Whether a semicolon may be left out before this text, which begins right after a token.
`operand` says that the token ends an operand, so that an operator could follow. -/
def semicolonImplied (operand : Bool) (rest : List Char) : Bool :=
  Semicolon.walk (!operand) .sameLine rest

end LogSweep.Script

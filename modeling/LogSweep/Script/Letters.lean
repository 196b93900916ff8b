-- Character classes of script source: blanks, line ends and the letters of names.
namespace LogSweep.Script

/-- The blanks that the rule for automatic semicolons passes over. -/
def isPlainBlank (c : Char) : Bool :=
  c = ' ' || ('\t' ≤ c && c ≤ '\r')

/-- The space separators. -/
def isSpaceSeparator (c : Char) : Bool :=
  c = ' ' || c = '\u00A0' || c = '\u1680' || ('\u2000' ≤ c && c ≤ '\u200A') || c = '\u202F' ||
    c = '\u205F' || c = '\u3000'

/-- The line and paragraph separators. -/
def isLineSeparator (c : Char) : Bool := c = '\u2028' || c = '\u2029'

/-- A character that may stand between any two tokens. -/
def isBlank (c : Char) : Bool :=
  isPlainBlank c || isSpaceSeparator c || isLineSeparator c || c = '\uFEFF' || c = '\u2060' ||
    c = '\u200B'

/-- A line end as the rule for automatic semicolons sees it. -/
def isLineEnd (c : Char) : Bool := c = '\n' || isLineSeparator c

/-- A character that ends a line comment. -/
def endsLineComment (c : Char) : Bool := isLineEnd c || c = '\r'

def isDigit (c : Char) : Bool := '0' ≤ c && c ≤ '9'

def isHexDigit (c : Char) : Bool :=
  isDigit c || ('a' ≤ c && c ≤ 'f') || ('A' ≤ c && c ≤ 'F')

def isOctalDigit (c : Char) : Bool := '0' ≤ c && c ≤ '7'

def isBinaryDigit (c : Char) : Bool := c = '0' || c = '1'

/-- The letters of the ASCII alphabet. -/
def isLatinLetter (c : Char) : Bool := ('a' ≤ c && c ≤ 'z') || ('A' ≤ c && c ≤ 'Z')

/-- The marks that no name holds. -/
def marks : List Char := ":;`\"'@#.,|^&<=>+-*/\\%?!~()[]\x7b\x7d".toList

/-- A character that may stand in a name: all but controls, blanks and marks. -/
def isNamePart (c : Char) : Bool :=
  '\x1F' < c && !isBlank c && !marks.contains c

/-- A character that may begin a name. -/
def isNameStart (c : Char) : Bool := isNamePart c && !isDigit c

end LogSweep.Script

-- Paths as they are written: the pieces between slashes, and the components that count.
import LogSweep.Text

namespace LogSweep

/-- What a piece of a path stands for. -/
inductive Component
  | root
  /-- A dot that opens the path. Any other dot counts for nothing. -/
  | here
  | up
  | name (text : String)
  deriving DecidableEq, Repr

/-- A path as it is written, cut at every slash. The empty path is one empty piece, and a slash
at either end leaves an empty piece there. -/
structure Path where
  pieces : List String
  deriving DecidableEq, Repr

namespace Path

def ofText (text : String) : Path := ⟨(Text.splitOn '/' text.toList).map String.ofList⟩

/-- The path as it is written. -/
def text (p : Path) : String := "/".intercalate p.pieces

/-- Whether a path starts at the root. -/
def isAbsolute (p : Path) : Bool :=
  match p.pieces with
  | "" :: _ :: _ => true
  | _ => false

/-! ## Components -/

/-- A piece, with what it stands for. -/
structure Part where
  piece : String
  component : Option Component
  deriving DecidableEq, Repr

/-- What a piece that opens no path stands for. -/
def Part.inner (piece : String) : Part :=
  if piece = "" || piece = "." then ⟨piece, none⟩
  else if piece = ".." then ⟨piece, some .up⟩
  else ⟨piece, some (.name piece)⟩

/-- Whether a piece counts for nothing. -/
def Part.isIdle (p : Part) : Bool := p.component.isNone

def parts (p : Path) : List Part :=
  match p.pieces with
  | "" :: q :: qs => ⟨"", some .root⟩ :: (q :: qs).map Part.inner
  | "." :: qs => ⟨".", some .here⟩ :: qs.map Part.inner
  | qs => qs.map Part.inner

/-- The path of some parts. The root alone is written as a slash. -/
def ofParts : List Part → Path
  | [] => ⟨[""]⟩
  | [⟨_, some .root⟩] => ⟨["", ""]⟩
  | ps => ⟨ps.map Part.piece⟩

/-- What a path is compared by. -/
def components (p : Path) : List Component := p.parts.filterMap Part.component

/-- Whether two paths are the same up to pieces that count for nothing. -/
def same (p q : Path) : Bool := p.components = q.components

def startsWith (p base : Path) : Bool := base.components.isPrefixOf p.components

/-- Drops what counts for nothing from the end. -/
def trimEnd (ps : List Part) : List Part := (ps.reverse.dropWhile Part.isIdle).reverse

/-! ## Up and down -/

/-- Writes one path after another. An absolute path takes the place of what stands before it. -/
def join (p q : Path) : Path :=
  if q.isAbsolute || p.pieces = [""] then q
  else if p.pieces.getLast? = some "" then ⟨p.pieces.dropLast ++ q.pieces⟩
  else ⟨p.pieces ++ q.pieces⟩

/-- Drops the last component. The root and the empty path have no parent. -/
def parent? (p : Path) : Option Path :=
  let ps := trimEnd p.parts
  match ps.getLast? with
  | none => none
  | some ⟨_, some .root⟩ => none
  | some _ => some (ofParts (trimEnd ps.dropLast))

/-- A path and the ones above it, at most so many steps up. -/
def climb : Nat → Path → List Path
  | 0, p => [p]
  | n + 1, p =>
    p :: match p.parent? with
      | some q => climb n q
      | none => []

/-- A path and all the ones above it, the nearest first. -/
def ancestors (p : Path) : List Path := climb p.components.length p

/-- The last component, when it is a name. -/
def fileName? (p : Path) : Option String :=
  match p.components.getLast? with
  | some (.name n) => some n
  | _ => none

/-- What follows the last dot of a name. A name that starts with its only dot has none. -/
def extensionOf? (name : String) : Option String :=
  let back := name.toList.reverse
  let extension := back.takeWhile (· ≠ '.')
  match back.drop extension.length with
  | _ :: _ :: _ => some (String.ofList extension.reverse)
  | _ => none

/-- Takes components off the front of some parts. -/
def stripParts : List Part → List Component → Option (List Part)
  | ps, [] => some ps
  | [], _ :: _ => none
  | p :: ps, c :: cs =>
    match p.component with
    | none => stripParts ps (c :: cs)
    | some d => if d = c then stripParts ps cs else none

/-- What is left of a path below another. -/
def below? (p base : Path) : Option Path :=
  (stripParts p.parts base.components).map
    (fun ps => ofParts (trimEnd (ps.dropWhile Part.isIdle)))

/-- Whether some component goes up. -/
def goesUp (p : Path) : Bool := p.components.contains .up

/-! ## Paths for readers -/

/-- Drops the marks of long paths from the front. -/
def dropLongMarks : List Char → List Char
  | '\\' :: '\\' :: '?' :: '\\' :: cs => dropLongMarks cs
  | cs => cs

/-- A path as it is shown: with forward slashes only, and without the dot that opens it. -/
def shown (text : String) : String :=
  let slashed := (dropLongMarks text.toList).map (fun c => if c = '\\' then '/' else c)
  match slashed with
  | '.' :: '/' :: cs => String.ofList cs
  | cs => String.ofList cs

def display (p : Path) : String := shown p.text

end Path

end LogSweep

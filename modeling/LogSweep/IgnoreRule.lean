-- Ignore files: which entries of a file tree its own ignore files tell to pass over.
import LogSweep.FileTree
import LogSweep.Glob
import LogSweep.Text.Word

namespace LogSweep

/-- What an ignore file says of an entry. -/
inductive Verdict
  | pass
  | keep
  deriving DecidableEq, Repr

/-- One line of an ignore file. -/
structure IgnoreRule where
  shape : GlobShape
  verdict : Verdict
  directoriesOnly : Bool

namespace IgnoreRule

/-- Reads a line. A comment, a blank line and a line that is no glob give no rule. -/
def parse? (line : List Char) : Option IgnoreRule :=
  let trimmed :=
    if line.reverse.take 2 = [' ', '\\'] then line else Text.trimEndBy Text.isSpace line
  match trimmed with
  | [] => none
  | '#' :: _ => none
  | '\\' :: '!' :: cs => finish .pass false ('!' :: cs)
  | '\\' :: '#' :: cs => finish .pass false ('#' :: cs)
  | '!' :: '/' :: cs => finish .keep true cs
  | '!' :: cs => finish .keep false cs
  | '/' :: cs => finish .pass true cs
  | cs => finish .pass false cs
where
  /-- A rule without a slash inside holds at any depth below its file. -/
  finish (verdict : Verdict) (anchored : Bool) (line : List Char) : Option IgnoreRule :=
    let directoriesOnly := line.getLast? = some '/'
    let named := if directoriesOnly then line.dropLast else line
    let body := if directoriesOnly && named.getLast? = some '\\' then named.dropLast else named
    let deep := if !anchored && !body.contains '/' && body ≠ ['*', '*']
      then '*' :: '*' :: '/' :: body else body
    let inside := if deep.reverse.take 3 = ['*', '*', '/'] then deep ++ ['/', '*'] else deep
    (Glob.shape? inside).map (fun shape => ⟨shape, verdict, directoriesOnly⟩)

/-- Splits bytes into lines. -/
def byteLines : List UInt8 → List (List UInt8)
  | [] => [[]]
  | x :: xs =>
    if x = 10 then [] :: byteLines xs
    else
      match byteLines xs with
      | line :: rest => (x :: line) :: rest
      | [] => [[x]]

/-- The lines of a file up to the first that is no text. -/
def textLines : List (List UInt8) → List (List Char)
  | [] => []
  | line :: rest =>
    match String.fromUTF8? ⟨line.toArray⟩ with
    | some s =>
      let cs := s.toList
      (if !rest.isEmpty && cs.getLast? = some '\r' then cs.dropLast else cs) :: textLines rest
    | none => []

/-- Drops the marks of byte order from the front. -/
def dropMarks (line : List Char) : List Char := line.dropWhile (· = '\uFEFF')

/-- Reads an ignore file. -/
def parseFile (content : ByteArray) : List IgnoreRule :=
  match textLines (byteLines content.data.toList) with
  | [] => []
  | first :: rest => (dropMarks first :: rest).filterMap parse?

/-- What some rules say of a path below their file: the last rule that fits decides. -/
def decide? (rules : List IgnoreRule) (names : List String) (isDirectory : Bool) :
    Option Verdict :=
  let path := ("/".intercalate names).toUTF8.data.toList
  (rules.reverse.find? (fun r =>
    (!r.directoriesOnly || isDirectory) && r.shape.accepts path)).map verdict

end IgnoreRule

/-! ## Ignore files in a tree -/

/-- The ignore rules that stand in one directory. -/
structure IgnoreFiles where
  plain : List IgnoreRule
  tracked : List IgnoreRule
  excluded : List IgnoreRule
  /-- Whether a repository starts here. -/
  isRepository : Bool

namespace FileTree

/-- The rules of the ignore file at a place. -/
def rulesAt (t : FileTree) (l : Location) : List IgnoreRule :=
  match t.find? l with
  | some (.file content) => IgnoreRule.parseFile content
  | _ => []

def ignoreFiles (t : FileTree) (d : Location) : IgnoreFiles where
  plain := t.rulesAt (d ++ [".ignore"])
  tracked := t.rulesAt (d ++ [".gitignore"])
  excluded := t.rulesAt (d ++ [".git", "info", "exclude"])
  isRepository := (t.find? (d ++ [".git"])).isSome

/-- The directories above a place, the nearest first. -/
def above (l : Location) : List Location :=
  ((List.range l.length).map (fun n => l.take n)).reverse

/-- The front of a list up to and with the first element of a kind. -/
def upTo {α : Type} (p : α → Bool) : List α → List α
  | [] => []
  | x :: xs => if p x then [x] else x :: upTo p xs

/-- Whether the ignore files above an entry tell to pass over it. The nearest directory that
says anything decides. Plain rules go before those of a repository, which count inside of one
only and not beyond its start, and a repository's list of exclusions comes last. -/
def isIgnored (t : FileTree) (l : Location) (isDirectory : Bool) : Bool :=
  let files := (above l).map (fun d => (l.drop d.length, t.ignoreFiles d))
  let inRepository := files.any (fun f => f.2.isRepository)
  let nearest := if inRepository then upTo (fun f => f.2.isRepository) files else []
  let ask := fun (pick : IgnoreFiles → List IgnoreRule)
      (fs : List (List String × IgnoreFiles)) =>
    fs.findSome? (fun f => IgnoreRule.decide? (pick f.2) f.1 isDirectory)
  ((ask IgnoreFiles.plain files).or
    ((ask IgnoreFiles.tracked nearest).or (ask IgnoreFiles.excluded nearest))) = some .pass

end FileTree

end LogSweep

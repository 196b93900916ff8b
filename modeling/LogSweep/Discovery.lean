-- Discovery: the files below a root whose names and extensions are wanted.
import LogSweep.IgnoreRule

namespace LogSweep

/-- Whether a name fits a pattern: a star and a dotted ending, or the name itself. -/
def fitsPattern (pattern name : String) : Bool :=
  match pattern.toList with
  | '*' :: ending => ending.head? = some '.' && ending.isSuffixOf name.toList
  | _ => name = pattern

/-- Whether a name fits one of the patterns. -/
def isExcluded (patterns : List String) (name : String) : Bool :=
  patterns.any (fun p => fitsPattern p name)

/-- Which files to look at. -/
structure Discovery where
  excluded : List String
  included : List String
  extensions : List String
  deriving DecidableEq, Repr

namespace Discovery

/-- The names that are passed over unless a user says otherwise. -/
def defaultExcluded : List String :=
  ["node_modules", "bower_components", ".git", "coverage", ".next", ".cache", "*.min.js"]

/-- The extensions that are looked at unless a user says otherwise. -/
def defaultExtensions : List String := ["js", "mjs", "cjs", "jsx"]

/-- The patterns of names to pass over. An inclusion takes back the pattern it equals. -/
def patterns (d : Discovery) : List String :=
  (d.excluded ++ defaultExcluded).filter (fun p => !d.included.contains p)

/-- Whether the file at a place has a wanted extension. -/
def wants (d : Discovery) (l : Location) : Bool :=
  match l.getLast?.bind Path.extensionOf? with
  | some e => d.extensions.contains e
  | none => false

/-- Whether the search goes on to an entry. -/
def admits (d : Discovery) (t : FileTree) (l : Location) (isDirectory : Bool) : Bool :=
  !t.isIgnored l isDirectory && !isExcluded d.patterns (l.getLast?.getD "")

end Discovery

namespace FileTree

/-- The files below a place, at most so many names down. What is not admitted is not entered. -/
def filesBelow (t : FileTree) (admits : Location → Bool → Bool) : Nat → Location → List Location
  | 0, _ => []
  | n + 1, l =>
    (t.names l).flatMap (fun name =>
      let k := l ++ [name]
      match t.find? k with
      | some (.file _) => if admits k false then [k] else []
      | some .directory => if admits k true then t.filesBelow admits n k else []
      | none => [])

/-- The files that a root leads to, in the order of their components. A root that is a file is
taken as it is, and the name of a root that is a directory is not looked at. -/
def discover (t : FileTree) (d : Discovery) (root : Path) : List Path :=
  match t.locate root with
  | .ok (_, .file _) => [root]
  | .ok (base, .directory) =>
    let found := (t.filesBelow (d.admits t) t.depth base).filter d.wants
    let below := (found.map (fun l => l.drop base.length)).mergeSort (fun a b => decide (List.le a b))
    below.map (fun names => names.foldl (fun p n => p.join ⟨[n]⟩) root)
  | .error _ => []

end FileTree

end LogSweep

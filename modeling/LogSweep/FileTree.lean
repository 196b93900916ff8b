-- File trees: what stands at each place below the root, and how paths lead there.
import LogSweep.Path

namespace LogSweep

/-- A place in a file tree: the names that lead there from the root. -/
abbrev Location := List String

/-- What stands at a place. -/
inductive Entry
  | file (content : ByteArray)
  | directory

instance : DecidableEq Entry
  | .file a, .file b =>
    match ByteArray.decEq a b with
    | isTrue h => isTrue (congrArg Entry.file h)
    | isFalse h => isFalse (fun e => h (Entry.file.inj e))
  | .file _, .directory => isFalse nofun
  | .directory, .file _ => isFalse nofun
  | .directory, .directory => isTrue rfl

/-- Why a file or directory cannot be read or made. -/
inductive FileError
  | notFound
  | alreadyExists
  | notDirectory
  | isDirectory
  | notText
  /-- Any other trouble, in the words of the system. -/
  | other (reason : String)
  deriving DecidableEq, Repr

def FileError.message : FileError → String
  | .notFound => "No such file or directory (os error 2)"
  | .alreadyExists => "File exists (os error 17)"
  | .notDirectory => "Not a directory (os error 20)"
  | .isDirectory => "Is a directory (os error 21)"
  | .notText => "stream did not contain valid UTF-8"
  | .other reason => reason

/-- A file tree, and the directory from which relative paths start. The root is a directory
without an entry of its own. -/
structure FileTree where
  workDir : Location
  entries : List (Location × Entry)

namespace FileTree

/-! ## Entries -/

def find? (t : FileTree) (l : Location) : Option Entry :=
  if l = [] then some .directory else t.entries.lookup l

/-- Puts an entry at a place, over what stood there. -/
def put (t : FileTree) (l : Location) (e : Entry) : FileTree :=
  { t with entries := (l, e) :: t.entries.filter (fun k => k.1 ≠ l) }

/-- Puts an entry at a place, with the directories above it. -/
def plant (t : FileTree) (l : Location) (e : Entry) : FileTree :=
  let above := (List.range l.length).map (fun n => l.take n)
  let grow := fun (t : FileTree) (d : Location) =>
    if (t.find? d).isSome then t else t.put d .directory
  (above.foldl grow t).put l e

/-- The names directly below a place. -/
def names (t : FileTree) (l : Location) : List String :=
  (t.entries.filterMap (fun k =>
    if k.1.dropLast = l then k.1.getLast? else none)).eraseDups

/-- How many names the deepest entry has. -/
def depth (t : FileTree) : Nat := (t.entries.map (fun k => k.1.length)).foldl max 0

theorem find?_put_self {t : FileTree} {l : Location} (e : Entry) (h : l ≠ []) :
    (t.put l e).find? l = some e := by
  simp [find?, put, h]

theorem find?_put_ne {t : FileTree} {l k : Location} (e : Entry) (h : k ≠ l) :
    (t.put l e).find? k = t.find? k := by
  have lookup_filter : ∀ es : List (Location × Entry),
      List.lookup k (es.filter (fun x => x.1 ≠ l)) = List.lookup k es := by
    intro es
    induction es with
    | nil => rfl
    | cons x xs ih =>
      by_cases hx : x.1 = l
      · have hk : (k == x.1) = false := by simpa [hx] using h
        rw [List.filter_cons_of_neg (by simp [hx]), ih, List.lookup_cons, hk]
      · rw [List.filter_cons_of_pos (by simp [hx]), List.lookup_cons, List.lookup_cons, ih]
  have hkl : (k == l) = false := by simpa using h
  unfold find? put
  split
  · rfl
  · simp only [List.lookup_cons, hkl]
    exact lookup_filter t.entries

/-! ## Paths -/

/-- Follows the pieces of a path. Every piece needs a directory to start from. -/
def follow (t : FileTree) : Location → List String → Except FileError Location
  | l, [] => .ok l
  | l, s :: rest =>
    match t.find? l with
    | some .directory =>
      if s = "" || s = "." then t.follow l rest
      else if s = ".." then t.follow l.dropLast rest
      else t.follow (l ++ [s]) rest
    | some (.file _) => .error .notDirectory
    | none => .error .notFound

/-- Where a path starts. -/
def start (t : FileTree) (p : Path) : Location := if p.isAbsolute then [] else t.workDir

/-- The place a path leads to, and what stands there. -/
def locate (t : FileTree) (p : Path) : Except FileError (Location × Entry) :=
  if p.pieces = [""] then .error .notFound
  else
    match t.follow (t.start p) p.pieces with
    | .error e => .error e
    | .ok l =>
      match t.find? l with
      | some e => .ok (l, e)
      | none => .error .notFound

/-- The absolute path of a place, without dots. -/
def pathOf (l : Location) : Path := if l = [] then ⟨["", ""]⟩ else ⟨"" :: l⟩

/-- The absolute path, without dots, of what a path leads to. -/
def canonical (t : FileTree) (p : Path) : Except FileError Path :=
  (t.locate p).map (fun k => pathOf k.1)

def holds (t : FileTree) (p : Path) : Bool :=
  match t.locate p with
  | .ok _ => true
  | .error _ => false

def isFile (t : FileTree) (p : Path) : Bool :=
  match t.locate p with
  | .ok (_, .file _) => true
  | _ => false

def isDirectory (t : FileTree) (p : Path) : Bool :=
  match t.locate p with
  | .ok (_, .directory) => true
  | _ => false

/-! ## Reading and writing -/

def readBytes (t : FileTree) (p : Path) : Except FileError ByteArray :=
  match t.locate p with
  | .ok (_, .file content) => .ok content
  | .ok (_, .directory) => .error .isDirectory
  | .error e => .error e

def readText (t : FileTree) (p : Path) : Except FileError String := do
  match String.fromUTF8? (← t.readBytes p) with
  | some s => return s
  | none => throw .notText

/-- The place where an entry of a name would stand below the directory of some pieces. -/
def placeIn (t : FileTree) (p : Path) (pieces : List String) (name : String) :
    Except FileError Location := do
  let l ← t.follow (t.start p) pieces
  match t.find? l with
  | some .directory => return l ++ [name]
  | some (.file _) => throw .notDirectory
  | none => throw .notFound

/-- Whether a piece can be the name of an entry. -/
def isName (piece : String) : Bool := piece ≠ "" && piece ≠ "." && piece ≠ ".."

/-- Writes a text to a file, over what it held. The directory of the file must be there. -/
def writeText (t : FileTree) (p : Path) (content : String) : Except FileError FileTree := do
  match p.pieces.getLast? with
  | none => throw .notFound
  | some name =>
    if isName name then
      let l ← t.placeIn p p.pieces.dropLast name
      match t.find? l with
      | some .directory => throw .isDirectory
      | _ => return t.put l (.file content.toUTF8)
    else
      let _ ← t.locate p
      throw .isDirectory

/-- Makes one directory. Slashes at the end of its path do not count. -/
def makeDirectory (t : FileTree) (p : Path) : Except FileError FileTree := do
  let pieces := (p.pieces.reverse.dropWhile (· = "")).reverse
  match pieces.getLast? with
  | none => throw (if p.isAbsolute then .alreadyExists else .notFound)
  | some name =>
    let l ← t.placeIn p pieces.dropLast name
    if isName name && (t.find? l).isNone then return t.put l .directory
    else throw .alreadyExists

/-- Makes the first of some directories, each standing in the next, and those that are missing
above it. What was made before a failure stays. -/
def makeChain (t : FileTree) : List Path → FileTree × Except FileError Unit
  | [] => (t, .ok ())
  | p :: above =>
    match t.makeDirectory p with
    | .ok made => (made, .ok ())
    | .error .notFound =>
      match t.makeChain above with
      | (made, .error e) => (made, .error e)
      | (made, .ok ()) =>
        match made.makeDirectory p with
        | .ok done => (done, .ok ())
        | .error e =>
          if e = .alreadyExists && made.isDirectory p then (made, .ok ()) else (made, .error e)
    | .error e => if e = .alreadyExists && t.isDirectory p then (t, .ok ()) else (t, .error e)

/-- Makes a directory and those that are missing above it. -/
def makeDirectories (t : FileTree) (p : Path) : FileTree × Except FileError Unit :=
  t.makeChain (p.ancestors.filter (fun q => q.parent?.isSome))

end FileTree

end LogSweep

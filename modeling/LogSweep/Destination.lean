-- Destinations: where the result of a file goes below an output directory.
import LogSweep.FileTree

namespace LogSweep

/-- Why a path is no destination. -/
inductive DestinationError
  /-- The output directory cannot be resolved. -/
  | unresolvedRoot (root : Path) (error : FileError)
  | unresolvedAncestor (ancestor : Path) (error : FileError)
  | outside (ancestor root : Path)
  /-- The part of the path that is not there yet goes up. -/
  | goesUp (path : Path)
  deriving DecidableEq, Repr

def DestinationError.message : DestinationError → String
  | .unresolvedRoot root e =>
    "Failed to canonicalize root directory " ++ root.text ++ ": " ++ e.message
  | .unresolvedAncestor ancestor e =>
    "Failed to canonicalize ancestor path " ++ ancestor.text ++ ": " ++ e.message
  | .outside ancestor root =>
    "Output path '" ++ ancestor.display ++ "' is outside of the output directory '" ++
      root.display ++ "'"
  | .goesUp path =>
    "Security Error: Path contains '..' in non-existent portion: '" ++ path.text ++ "'"

namespace FileTree

/-- The path of a file below the root it was found under. A file that is its own root goes by its
name. -/
def relativeDestination (t : FileTree) (file root : Path) : Path :=
  if t.isFile root || file.same root then
    match file.fileName? with
    | some name => ⟨[name]⟩
    | none => file
  else (file.below? root).getD file

/-- The nearest path above a path that is there. -/
def nearest (t : FileTree) (p : Path) : Path := (p.ancestors.find? t.holds).getD p

/-- The absolute destination for a path, which must not leave the output directory: what is
there of it lies inside, and what is not there yet never goes up. -/
def containedPath (t : FileTree) (path root : Path) : Except DestinationError Path := do
  let base ← (t.canonical root).mapError (.unresolvedRoot root)
  let absolute := if path.isAbsolute then path else base.join path
  let ancestor := t.nearest absolute
  let resolved ← (t.canonical ancestor).mapError (.unresolvedAncestor ancestor)
  if !resolved.startsWith base then throw (.outside resolved base)
  match absolute.below? ancestor with
  | some rest => if rest.goesUp then throw (.goesUp path) else return absolute
  | none => return absolute

end FileTree

end LogSweep

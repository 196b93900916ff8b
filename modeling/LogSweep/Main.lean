-- The program: it takes up the part of the file system that a command line speaks of, runs the
-- command line on it, and puts down what changed.
import LogSweep.Run

namespace LogSweep.Program

/-- The text of the absolute path of a place. -/
def textOf (l : Location) : String := (FileTree.pathOf l).text

/-- The place of an absolute path without dots. -/
def locationOf (text : String) : Location :=
  (Path.ofText text).components.filterMap (fun c =>
    match c with
    | .name n => some n
    | _ => none)

/-- Takes up a file, if one stands there. -/
def takeFile (t : FileTree) (l : Location) : IO FileTree := do
  try return t.plant l (.file (← IO.FS.readBinFile (textOf l)))
  catch _ => return t

/-- Takes up all that is below a directory, links aside. -/
partial def takeBelow (t : FileTree) (l : Location) : IO FileTree := do
  let mut t := t.plant l .directory
  for entry in ← (← IO.FS.realPath (textOf l)).readDir do
    match (← entry.path.symlinkMetadata).type with
    | .dir => t ← takeBelow t (l ++ [entry.fileName])
    | .file => t ← takeFile t (l ++ [entry.fileName])
    | _ => pure ()
  return t

/-- The files that count above a root: settings and rules on what to ignore. -/
def filesAbove : List (List String) :=
  [[Settings.fileName], [Settings.manifestName], [".ignore"], [".gitignore"],
    [".git", "info", "exclude"]]

/-- Takes up what counts in the directories above a place. -/
def takeAbove (t : FileTree) (l : Location) : IO FileTree := do
  let mut t := t
  for d in FileTree.above l do
    for names in filesAbove do
      t ← takeFile t (d ++ names)
    try
      discard (← IO.FS.realPath (textOf (d ++ [".git"]))).metadata
      t := t.plant (d ++ [".git"]) .directory
    catch _ => pure ()
  return t

/-- Takes up what stands at a path, if anything does: a file, or a directory, with all that is
below it if that is wanted. -/
def takePath (t : FileTree) (text : String) (deep : Bool) : IO FileTree := do
  try
    let real ← IO.FS.realPath text
    let l := locationOf real.toString
    match (← real.metadata).type with
    | .dir => if deep then takeAbove (← takeBelow t l) l else return t.plant l .directory
    | .file => takeAbove (← takeFile t l) l
    | _ => return t
  catch _ => return t

/-- Takes up a path and every path on the way to it. -/
def takeWay (t : FileTree) (p : Path) : IO FileTree := do
  let mut t := t
  for above in p.ancestors.drop 1 do
    t ← takePath t above.text false
  takePath t p.text true

/-- The paths that a command line speaks of. -/
def pathsOf (a : Arguments) : List Path :=
  match a.scan with
  | some s => s.discovery.requested
  | none => a.discovery.requested ++ (a.strip.outDir.map Path.ofText).toList

/-- Takes up the part of the file system that a command line speaks of. -/
def takeUp (args : List String) : IO FileTree := do
  let here := locationOf (← IO.currentDir).toString
  let mut t : FileTree := ⟨here, []⟩
  t ← takePath t (textOf here) false
  match Arguments.parse args with
  | .ok a =>
    for p in pathsOf a do
      t ← takeWay t p
    return t
  | .error _ => return t

/-- Puts down what a run changed, directories before what is in them. -/
def putDown (before after : FileTree) : IO Unit := do
  let changed := after.entries.filter (fun k => before.find? k.1 ≠ some k.2)
  for (l, e) in changed.mergeSort (fun a b => a.1.length ≤ b.1.length) do
    match e with
    | .directory => IO.FS.createDirAll (textOf l)
    | .file content => IO.FS.writeBinFile (textOf l) content

end LogSweep.Program

open LogSweep in
def main (args : List String) : IO UInt32 := do
  let t ← Program.takeUp args
  let r := t.run args
  Program.putDown t r.tree
  IO.print r.stdout
  IO.eprint r.stderr
  match r.ending with
  | .exit code => return code.toUInt32
  | .failed e =>
    IO.eprintln ("Error: " ++ e.message)
    return 1
  | .misuse e =>
    IO.eprintln ("error: " ++ e.message)
    return 1

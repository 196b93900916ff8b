-- Runs: what a command line does to a file tree, and what it prints.
import LogSweep.CommandLine.Help
import LogSweep.Discovery
import LogSweep.Report
import LogSweep.Text.Quoted

namespace LogSweep

/-! ## Sweeping files -/

/-- Where results go. -/
inductive WriteMode
  /-- Over the files that change. -/
  | inPlace
  | dryRun
  /-- Nowhere, and a file that would change is a failure. -/
  | check
  | stdout
  /-- Below a directory, whether a file changes or not. -/
  | outDir (directory : Path)
  deriving DecidableEq, Repr

namespace WriteMode

def isDry (m : WriteMode) : Bool := m = .dryRun || m = .check

def ofArgs (a : StripArgs) : WriteMode :=
  match a.outDir with
  | some directory => .outDir (.ofText directory)
  | none =>
    if a.stdout then .stdout
    else if a.check then .check
    else if a.dryRun then .dryRun
    else .inPlace

def display : WriteMode → String
  | .inPlace => "InPlace"
  | .dryRun => "DryRun"
  | .check => "Check"
  | .stdout => "Stdout"
  | .outDir directory => "OutDir(" ++ Text.quotedPath directory.text ++ ")"

end WriteMode

/-- A run fails when a file did, and a check also when a file would change. -/
def Summary.exitCode (s : Summary) (mode : WriteMode) : Nat :=
  if 0 < s.failed || (mode = .check && 0 < s.changed) then 1 else 0

/-- A file, and the root it was found under. -/
structure SourceFile where
  path : Path
  root : Path
  deriving DecidableEq, Repr

/-- What is left to do about a file that was read. -/
inductive NextStep
  | report (r : FileReport)
  /-- Write a text, and then report this. -/
  | write (text : String) (r : FileReport)
  deriving DecidableEq, Repr

namespace SourceFile

def report (f : SourceFile) (calls : Nat) (status : FileStatus) : FileReport :=
  ⟨f.path.display, calls, status, none⟩

/-- Decides what to do about a file from what was read. -/
def decide [Grammar] (f : SourceFile) (o : SweepOptions) (mode : WriteMode)
    (content : Except FileError String) : NextStep :=
  match content with
  | .error e => .report (f.report 0 (.readFailed e))
  | .ok source =>
    match sweep source o with
    | .error e => .report (f.report 0 (.parseFailed e))
    | .ok swept =>
      let calls := swept.replaced.length
      let done := if swept.changed then FileStatus.stripped else .unchanged
      match mode with
      | .dryRun | .check =>
        .report (f.report calls (if swept.changed then .wouldStrip else .unchanged))
      | .stdout => .report { f.report calls done with output := some swept.output }
      | .inPlace =>
        if swept.changed then .write swept.output (f.report calls done)
        else .report (f.report 0 done)
      | .outDir _ => .write swept.output (f.report calls done)

/-- Writes a text on a machine that may have a fault there. -/
def writeUnder (fault : Option FileError) (t : FileTree) (p : Path) (text : String) :
    Except FileError FileTree :=
  match fault with
  | some e => .error e
  | none => t.writeText p text

/-- Writes the result for a file: below the output directory, or over the file. What was made on
the way to a failure stays. -/
def store (f : SourceFile) (mode : WriteMode) (fault : Option FileError) (t : FileTree)
    (text : String) : FileTree × Except WriteError Unit :=
  match mode with
  | .outDir directory =>
    match t.containedPath (t.relativeDestination f.path f.root) directory with
    | .error e => (t, .error (.destination e))
    | .ok destination =>
      match destination.parent?.elim (t, .ok ()) t.makeDirectories with
      | (made, .error e) => (made, .error (.file e))
      | (made, .ok ()) =>
        match writeUnder fault made destination text with
        | .ok written => (written, .ok ())
        | .error e => (made, .error (.file e))
  | _ =>
    match writeUnder fault t f.path text with
    | .ok written => (written, .ok ())
    | .error e => (t, .error (.file e))

/-- Does what was decided about a file. -/
def perform (f : SourceFile) (mode : WriteMode) (fault : Option FileError) (t : FileTree) :
    NextStep → FileTree × FileReport
  | .report r => (t, r)
  | .write text r =>
    match f.store mode fault t text with
    | (after, .ok ()) => (after, r)
    | (after, .error e) => (after, { r with status := .writeFailed e })

end SourceFile

namespace FileTree

/-- Sweeps one file. -/
def sweepFile [Grammar] (t : FileTree) (o : SweepOptions) (mode : WriteMode) (f : SourceFile) :
    FileTree × FileReport :=
  f.perform mode none t (f.decide o mode (t.readText f.path))

/-- Sweeps files one after another, as a worker does who is alone and meets no fault. -/
def sweepFiles [Grammar] (t : FileTree) (o : SweepOptions) (mode : WriteMode) :
    List SourceFile → FileTree × List FileReport
  | [] => (t, [])
  | f :: fs =>
    let (next, r) := t.sweepFile o mode f
    let (last, rs) := next.sweepFiles o mode fs
    (last, r :: rs)

end FileTree

/-! ## Workers -/

/-- How far a file has come. -/
inductive Stage
  /-- It is still to be read. -/
  | waiting
  /-- It was read, and this is left to do. -/
  | decided (next : NextStep)
  | done (report : FileReport)
  deriving DecidableEq, Repr

namespace Stage

/-- The next step for a file: it is read, or what was decided about it is done. Each step is taken
as a whole, whatever the other workers do. -/
def advance [Grammar] (o : SweepOptions) (mode : WriteMode) (fault : Option FileError)
    (f : SourceFile) (t : FileTree) : Stage → FileTree × Stage
  | .waiting => (t, .decided (f.decide o mode (t.readText f.path)))
  | .decided next => ((f.perform mode fault t next).1, .done (f.perform mode fault t next).2)
  | .done r => (t, .done r)

def report? : Stage → Option FileReport
  | .done r => some r
  | _ => none

end Stage

/-- Workers at their files: the tree that they share, the faults that they meet at the files, and
how far each file has come. -/
structure Crew where
  tree : FileTree
  faults : Nat → Option FileError
  files : List (SourceFile × Stage)

namespace Crew

def start (t : FileTree) (fs : List SourceFile)
    (faults : Nat → Option FileError := fun _ => none) : Crew :=
  ⟨t, faults, fs.map (fun f => (f, .waiting))⟩

/-- The worker at one of the files takes its next step. -/
def turn [Grammar] (o : SweepOptions) (mode : WriteMode) (c : Crew) (i : Nat) : Crew :=
  match c.files[i]? with
  | none => c
  | some (f, s) =>
    { c with
      tree := (s.advance o mode (c.faults i) f c.tree).1
      files := c.files.set i (f, (s.advance o mode (c.faults i) f c.tree).2) }

/-- The workers take their steps in the order of a schedule. -/
def run [Grammar] (o : SweepOptions) (mode : WriteMode) (c : Crew) (schedule : List Nat) : Crew :=
  schedule.foldl (turn o mode) c

/-- The reports on the files that are done, in the order of the files. -/
def reports (c : Crew) : List FileReport := c.files.filterMap (fun x => x.2.report?)

/-- The turns in which so many files are read and written one after another. -/
def inOrder (n : Nat) : List Nat := (List.range n).flatMap (fun i => [i, i])

end Crew

/-- What a run meets: the number of workers, the order in which files take their turns, and for
each file the fault that keeps it from being written. -/
structure Machine where
  workers : Nat := 1
  turns : List Nat := []
  faults : Nat → Option FileError := fun _ => none

namespace FileTree

/-- The workers when they are through with some files. Files that are not done after the turns of
the machine are finished one after another. -/
def crewAfter [Grammar] (t : FileTree) (o : SweepOptions) (mode : WriteMode) (m : Machine)
    (fs : List SourceFile) : Crew :=
  (Crew.start t fs m.faults).run o mode (m.turns ++ Crew.inOrder fs.length)

/-- Sweeps files side by side. -/
def sweepTogether [Grammar] (t : FileTree) (o : SweepOptions) (mode : WriteMode) (m : Machine)
    (fs : List SourceFile) : FileTree × List FileReport :=
  let c := t.crewAfter o mode m fs
  (c.tree, c.reports)

/-- The files that a root is taken for. A dash that is no file stands for the standard input, where
no file is looked for. -/
def filesOf (t : FileTree) (d : Discovery) (root : Path) : List Path :=
  if root.components = [.name "-"] && !t.isFile root then [] else t.discover d root

/-- The files that roots lead to, root by root. A file that two of them lead to is there twice. -/
def sourceFiles (t : FileTree) (d : Discovery) (roots : List Path) : List SourceFile :=
  roots.flatMap (fun root => (t.filesOf d root).map (fun p => ⟨p, root⟩))

/-- The targeted calls of one file. -/
def scanFile [Grammar] (t : FileTree) (targets : TargetSet) (f : SourceFile) :
    Except ScanFailure (List FoundCall) := do
  let file := f.path.display
  let source ← (t.readText f.path).mapError (fun e => ⟨file, e.message⟩)
  let spans ← (scan source targets).mapError (fun e => ⟨file, e.message⟩)
  let lines := Lines.ofSource source
  return spans.map (fun s =>
    let (line, column) := lines.position s.start
    ⟨file, line, column, s, (s.slice? source).getD ""⟩)

end FileTree

/-! ## Running a command line -/

/-- How a run ends. -/
inductive Ending
  | exit (code : Nat)
  /-- The output directory could not be made. -/
  | failed (error : FileError)
  | misuse (error : UsageError)
  deriving DecidableEq, Repr

/-- A run: the tree after it, what it printed, and how it ended. -/
structure RunResult where
  tree : FileTree
  stdout : String
  stderr : String
  ending : Ending

/-- The version of the program. -/
def version : String := "0.3.1"

/-- What both commands start from. -/
structure Workspace where
  loaded : LoadedSettings
  roots : List Path
  discovery : Discovery
  /-- What is said about it. -/
  notes : List String

/-- The roots that a user asks for, or the working directory. -/
def DiscoveryArgs.requested (a : DiscoveryArgs) : List Path :=
  if a.roots.isEmpty then [.ofText "."] else a.roots.map .ofText

/-- The discovery that a user asks for, over that of the settings. -/
def DiscoveryArgs.discovery (a : DiscoveryArgs) (s : Settings) : Discovery where
  excluded := s.excluded.getD [] ++ a.excluded
  included := s.included.getD [] ++ a.included
  extensions :=
    (if a.extensions.isEmpty then s.extensions.getD Discovery.defaultExtensions
      else a.extensions).map (fun e => String.ofList (e.toList.dropWhile (· = '.')))

/-- The line that lists the targets. -/
def TargetSet.line (ts : TargetSet) : String :=
  "Targets: " ++ ", ".intercalate (ts.targets.map Target.display)

namespace OutputArgs

/-- Whether notes are asked for. Data goes without. -/
def wantsNotes (a : OutputArgs) : Bool := a.verbose && !a.json

end OutputArgs

namespace FileTree

/-- Loads the settings for the first root, and drops roots that are not there. -/
def workspace (t : FileTree) (a : DiscoveryArgs) (out : OutputArgs) (workers : Nat := 1) :
    Workspace :=
  let requested := a.requested
  let loaded := t.loadSettings (requested.head?.getD (.ofText "."))
  let discovery := a.discovery loaded.settings
  let missing := requested.filter (fun p => !t.holds p)
  let notes := if out.wantsNotes then
    ["[VERBOSE] delog v" ++ version,
      "[VERBOSE] Using " ++ toString workers ++ " threads",
      "[VERBOSE] Config: " ++ (loaded.file.map Path.text).getD "defaults",
      "[VERBOSE] Excludes: " ++ Text.quotedList discovery.excluded,
      "[VERBOSE] Extensions: " ++ Text.quotedList discovery.extensions] else []
  { loaded, discovery
    roots := requested.filter t.holds
    notes := missing.map (fun p => "Skip: " ++ p.text ++ " not found") ++ notes }

/-- The options of a sweep: the command line goes before the settings. -/
def sweepOptions (s : Settings) (a : Arguments) : Except String SweepOptions := do
  let targets ← (a.targets.resolve s).mapError InvalidTarget.message
  let strategy ← (match a.strip.strategy with
    | some text => (Strategy.parse text).map some
    | none => s.chosenStrategy).mapError UnknownStrategy.message
  return ⟨targets, strategy, a.strip.removeSemicolon || s.removeSemicolon.getD false⟩

/-- What a sweep prints: swept texts, data, or lines for readers. -/
def sweepOutput (mode : WriteMode) (out : OutputArgs) (rs : List FileReport) :
    String × List String :=
  if mode = .stdout then
    (String.join (rs.filterMap FileReport.output),
      rs.filterMap (fun r => match r.output, r.status with
        | none, .readFailed e => some ("Error: " ++ r.file ++ ": " ++ e.message)
        | none, .parseFailed e => some ("Error: " ++ r.file ++ ": " ++ e.message)
        | _, _ => none))
  else if out.json then (sweepJson rs, [])
  else (sweepText rs mode.isDry out.verbose out.quiet, [])

/-- Makes the output directory, if there is one. -/
def prepareOutput (t : FileTree) : WriteMode → FileTree × Except FileError Unit
  | .outDir directory => t.makeDirectories directory
  | _ => (t, .ok ())

/-- Runs a sweep. -/
def runSweep [Grammar] (t : FileTree) (a : Arguments) (m : Machine := {}) : RunResult :=
  let w := t.workspace a.discovery a.output m.workers
  match sweepOptions w.loaded.settings a with
  | .error message => ⟨t, "", Text.unlines (w.notes ++ ["Error: " ++ message]), .exit 1⟩
  | .ok o =>
    let mode := WriteMode.ofArgs a.strip
    let notes := w.notes ++ if a.output.wantsNotes then
      ["[VERBOSE] Strategy: " ++ o.effective.display, "[VERBOSE] Mode: " ++ mode.display,
        o.targets.line, ""] else []
    let files := t.sourceFiles w.discovery w.roots
    if mode = .stdout && files.length ≠ 1 then
      let found := "Error: --stdout needs exactly one file, found " ++ toString files.length
      ⟨t, "", Text.unlines (notes ++ [found]), .exit 1⟩
    else if files.isEmpty then
      ⟨t, if a.output.json then "" else "No JavaScript files found.\n", Text.unlines notes, .exit 0⟩
    else
      match t.prepareOutput mode with
      | (made, .error e) => ⟨made, "", Text.unlines notes, .failed e⟩
      | (made, .ok ()) =>
        let (after, rs) := made.sweepTogether o mode m files
        let (stdout, errors) := sweepOutput mode a.output rs
        ⟨after, stdout, Text.unlines (notes ++ errors), .exit ((Summary.ofReports rs).exitCode mode)⟩

/-- Runs a scan. -/
def runScan [Grammar] (t : FileTree) (a : ScanArgs) (m : Machine := {}) : RunResult :=
  let w := t.workspace a.discovery a.output m.workers
  match a.targets.resolve w.loaded.settings with
  | .error e => ⟨t, "", Text.unlines (w.notes ++ ["Error: " ++ e.message]), .exit 1⟩
  | .ok targets =>
    let files := t.sourceFiles w.discovery w.roots
    let r := ScanReport.ofResults (files.map (t.scanFile targets))
    let head := if a.output.verbose then targets.line ++ "\n" else ""
    ⟨t, if a.output.json then r.json else head ++ r.text, Text.unlines w.notes, .exit r.exitCode⟩

/-- Runs a command line. -/
def run [Grammar] (t : FileTree) (args : List String) (m : Machine := {}) : RunResult :=
  match Arguments.parse args with
  | .error (.help topic) => ⟨t, topic.text, "", .exit 0⟩
  | .error .version => ⟨t, "delog " ++ version ++ "\n", "", .exit 0⟩
  | .error (.misuse e) => ⟨t, "", "", .misuse e⟩
  | .ok a =>
    match a.scan with
    | some s => t.runScan s m
    | none => t.runSweep a m

end FileTree

end LogSweep

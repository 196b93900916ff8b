-- The command line: which arguments are understood, and what they ask for.
import LogSweep.Settings

namespace LogSweep

/-! ## What can be asked for -/

/-- Which files to look at. -/
structure DiscoveryArgs where
  roots : List String
  excluded : List String
  included : List String
  extensions : List String
  deriving DecidableEq, Repr

/-- Which calls to sweep. -/
structure TargetArgs where
  paths : List String
  methods : List String
  targets : List String
  deriving DecidableEq, Repr

/-- How much to report, and in what form. -/
structure OutputArgs where
  json : Bool
  verbose : Bool
  quiet : Bool
  deriving DecidableEq, Repr

/-- How calls are replaced and where results go. -/
structure StripArgs where
  strategy : Option String
  removeSemicolon : Bool
  dryRun : Bool
  check : Bool
  stdout : Bool
  outDir : Option String
  deriving DecidableEq, Repr

structure ScanArgs where
  discovery : DiscoveryArgs
  targets : TargetArgs
  output : OutputArgs
  deriving DecidableEq, Repr

/-- A command line that was understood. -/
structure Arguments where
  scan : Option ScanArgs
  discovery : DiscoveryArgs
  targets : TargetArgs
  output : OutputArgs
  strip : StripArgs
  deriving DecidableEq, Repr

/-- Why a command line is not understood. -/
inductive UsageError
  | argumentConflict
  | unknownArgument
  | invalidValue
  | tooManyValues
  | invalidSubcommand
  deriving DecidableEq, Repr

def UsageError.message : UsageError → String
  | .argumentConflict => "the arguments cannot be used together"
  | .unknownArgument => "unexpected argument"
  | .invalidValue => "a value is missing or invalid"
  | .tooManyValues => "unexpected value"
  | .invalidSubcommand => "unrecognized subcommand"

inductive HelpTopic
  | sweep
  | scan
  | help
  deriving DecidableEq, Repr

/-- Why a command line asks for no work. -/
inductive Stop
  | help (topic : HelpTopic)
  | version
  | misuse (error : UsageError)
  deriving DecidableEq, Repr

/-- Puts what the command line says about targets over the settings. A path or a method there
sets aside the targets that the settings list. -/
def TargetArgs.resolve (a : TargetArgs) (s : Settings) : Except InvalidTarget TargetSet :=
  let given := fun (l : List String) => if l.isEmpty then none else some l
  let listed := if a.paths.isEmpty && a.methods.isEmpty then s.targets else none
  Settings.targetSet { s with
    paths := (given a.paths).or s.paths
    methods := (given a.methods).or s.methods
    targets := (given a.targets).or listed }

/-! ## Options -/

inductive Flag
  | root
  | excluded
  | included
  | extension
  | path
  | method
  | target
  | strategy
  | removeSemicolon
  | dryRun
  | check
  | stdout
  | outDir
  | json
  | verbose
  | quiet
  | help
  | version
  deriving DecidableEq, Repr

namespace Flag

/-- The long names with the options they stand for. -/
def longNames : List (String × Flag) :=
  [("exclude-folders", .excluded), ("exclude-folder", .excluded), ("include-folders", .included),
    ("include-folder", .included), ("ext", .extension), ("namespace", .path), ("method", .method),
    ("target", .target), ("strategy", .strategy), ("remove-semicolon", .removeSemicolon),
    ("dry-run", .dryRun), ("check", .check), ("stdout", .stdout), ("out-dir", .outDir),
    ("json", .json), ("verbose", .verbose), ("quiet", .quiet), ("help", .help),
    ("version", .version)]

/-- The letters with the options they stand for. -/
def letters : List (Char × Flag) :=
  [('N', .path), ('m', .method), ('t', .target), ('s', .strategy), ('o', .outDir),
    ('v', .verbose), ('q', .quiet), ('h', .help), ('V', .version)]

def takesValue : Flag → Bool
  | .root | .excluded | .included | .extension | .path | .method | .target | .strategy
  | .outDir => true
  | _ => false

/-- Whether an option may be given again and again. -/
def isList : Flag → Bool
  | .root | .excluded | .included | .extension | .path | .method | .target => true
  | _ => false

/-- Whether the value of an option is a path, which cannot be empty. -/
def isPath : Flag → Bool
  | .root | .outDir => true
  | _ => false

/-- Whether the scan knows an option. -/
def isForScan : Flag → Bool
  | .strategy | .removeSemicolon | .dryRun | .check | .stdout | .outDir | .version => false
  | _ => true

/-- Whether an option says where results go. Only one of these can be given. -/
def isExclusive : Flag → Bool
  | .dryRun | .check | .stdout | .outDir => true
  | _ => false

end Flag

/-! ## Reading -/

/-- What the next argument can be. -/
inductive Expecting
  /-- Anything, the name of a command included. -/
  | anything
  /-- The value of the option before. -/
  | value
  /-- Another path. -/
  | root
  deriving DecidableEq, Repr

/-- Arguments that are being read: those that are settled, with their values, and the latest one
with the values it has so far. -/
structure Draft where
  inScan : Bool
  settled : List (Flag × String)
  pending : Option (Flag × List String)
  expecting : Expecting
  deriving DecidableEq, Repr

namespace Draft

def empty (inScan : Bool) : Draft := ⟨inScan, [], none, .anything⟩

def has (d : Draft) (f : Flag) : Bool := d.settled.any (fun s => s.1 = f)

/-- Settles an option with its values. -/
def settle (d : Draft) (f : Flag) (values : List String) : Except Stop Draft :=
  if f.takesValue && values.isEmpty then .error (.misuse .invalidValue)
  else if !f.isList && d.has f then .error (.misuse .argumentConflict)
  else if f.isPath && values.contains "" then .error (.misuse .invalidValue)
  else
    let held := if f.takesValue then values.map (fun v => (f, v)) else [(f, "")]
    .ok { d with settled := d.settled ++ held }

/-- Settles the latest option. -/
def finish (d : Draft) : Except Stop Draft :=
  match d.pending with
  | none => .ok d
  | some (f, values) => settle { d with pending := none } f values

/-- Takes an option with its value, or one that needs none. -/
def take (d : Draft) (f : Flag) (values : List String) : Except Stop Draft := do
  let d ← d.finish
  match f with
  | .help => throw (.help (if d.inScan then .scan else .sweep))
  | .version => throw .version
  | _ =>
    let d ← d.settle f values
    return { d with expecting := .anything }

/-- Takes an option whose value is the next argument. -/
def await (d : Draft) (f : Flag) : Except Stop Draft := do
  let d ← d.finish
  return { d with pending := some (f, []), expecting := .value }

def knows (d : Draft) (f : Flag) : Bool := !d.inScan || f.isForScan

/-- Takes an option by its long name, with the value after an equals sign, if there is one. -/
def takeLong (d : Draft) (body : List Char) : Except Stop Draft :=
  let name := body.takeWhile (· ≠ '=')
  match Flag.longNames.lookup (String.ofList name), body.drop name.length with
  | some f, rest =>
    if !d.knows f then .error (.misuse .unknownArgument)
    else
      match rest with
      | [] => if f.takesValue then d.await f else d.take f []
      | _ :: value =>
        if f.takesValue then d.take f [String.ofList value] else .error (.misuse .tooManyValues)
  | none, _ => .error (.misuse .unknownArgument)

/-- Takes options by their letters. The first that needs a value has the rest for it. -/
def takeLetters (d : Draft) : List Char → Except Stop Draft
  | [] => .ok d
  | c :: cs =>
    match Flag.letters.lookup c with
    | none => .error (.misuse .unknownArgument)
    | some f =>
      if !d.knows f then .error (.misuse .unknownArgument)
      else if f.takesValue then
        match cs with
        | [] => d.await f
        | '=' :: value => d.take f [String.ofList value]
        | value => d.take f [String.ofList value]
      else do
        let d ← d.take f []
        d.takeLetters cs

/-- Takes an argument as a path. -/
def takeRoot (d : Draft) (arg : String) : Except Stop Draft :=
  match d.pending with
  | some (.root, values) =>
    .ok { d with pending := some (.root, values ++ [arg]), expecting := .root }
  | _ => do
    let d ← d.finish
    return { d with pending := some (.root, [arg]), expecting := .root }

/-- Takes an argument that is no command. -/
def takeArgument (d : Draft) (arg : String) : Except Stop Draft :=
  match arg.toList, d.expecting, d.pending with
  | '-' :: '-' :: body, _, _ => d.takeLong body
  | '-' :: c :: cs, _, _ => d.takeLetters (c :: cs)
  | _, .value, some (f, values) =>
    .ok { d with pending := some (f, values ++ [arg]), expecting := .anything }
  | _, _, _ => d.takeRoot arg

def values (d : Draft) (f : Flag) : List String :=
  (d.settled.filter (fun s => s.1 = f)).map Prod.snd

def discovery (d : Draft) : DiscoveryArgs :=
  ⟨d.values .root, d.values .excluded, d.values .included, d.values .extension⟩

def targets (d : Draft) : TargetArgs := ⟨d.values .path, d.values .method, d.values .target⟩

def output (d : Draft) : OutputArgs := ⟨d.has .json, d.has .verbose, d.has .quiet⟩

def strip (d : Draft) : StripArgs :=
  ⟨(d.values .strategy).head?, d.has .removeSemicolon, d.has .dryRun, d.has .check,
    d.has .stdout, (d.values .outDir).head?⟩

end Draft

namespace Arguments

/-- What the help is asked for. -/
def helpFor : List String → Stop
  | [] => .help .sweep
  | ["scan"] => .help .scan
  | ["help"] => .help .help
  | _ => .misuse .invalidSubcommand

/-- Reads arguments up to the name of a command, and gives what follows it. After two dashes all
arguments are paths. -/
def read (d : Draft) : List String → Except Stop (Draft × Option (List String))
  | [] => .ok (d, none)
  | arg :: rest =>
    if d.expecting = .anything && !d.inScan && arg = "scan" then .ok (d, some rest)
    else if d.expecting = .anything && !d.inScan && arg = "help" then .error (helpFor rest)
    else if arg = "--" then do return (← rest.foldlM Draft.takeRoot d, none)
    else do read (← d.takeArgument arg) rest

def parseScan (args : List String) : Except Stop ScanArgs := do
  let (d, _) ← read (.empty true) args
  let d ← d.finish
  return ⟨d.discovery, d.targets, d.output⟩

/-- Understands a command line. What is wrong with the arguments of a command shows before what
is wrong with those in front of it. -/
def parse (args : List String) : Except Stop Arguments := do
  let (d, command) ← read (.empty false) args
  let scan ← command.mapM parseScan
  let d ← d.finish
  if 1 < (d.settled.filter (fun s => s.1.isExclusive)).length then
    throw (.misuse .argumentConflict)
  return ⟨scan, d.discovery, d.targets, d.output, d.strip⟩

end Arguments

end LogSweep

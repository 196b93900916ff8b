-- Reports: what happened to each file, the totals, and how both are shown.
import LogSweep.Data.Json
import LogSweep.Destination
import LogSweep.Lines
import LogSweep.Sweep

namespace LogSweep

open Data (Value)

/-! ## Files -/

/-- Why a result was not written. -/
inductive WriteError
  | file (error : FileError)
  | destination (error : DestinationError)
  deriving DecidableEq, Repr

def WriteError.message : WriteError → String
  | .file e => e.message
  | .destination e => e.message

/-- What happened to a file. -/
inductive FileStatus
  | stripped
  /-- Calls were found, and the file was left alone on request. -/
  | wouldStrip
  | unchanged
  | readFailed (error : FileError)
  | parseFailed (error : SweepError)
  | writeFailed (error : WriteError)
  deriving DecidableEq, Repr

namespace FileStatus

def isFailure : FileStatus → Bool
  | .readFailed _ | .parseFailed _ | .writeFailed _ => true
  | _ => false

def word : FileStatus → String
  | .stripped => "stripped"
  | .wouldStrip => "would_strip"
  | .unchanged => "unchanged"
  | .readFailed _ => "read_failed"
  | .parseFailed _ => "parse_failed"
  | .writeFailed _ => "write_failed"

def reason? : FileStatus → Option String
  | .readFailed e => some e.message
  | .parseFailed e => some e.message
  | .writeFailed e => some e.message
  | _ => none

end FileStatus

structure FileReport where
  file : String
  calls : Nat
  status : FileStatus
  /-- The swept text, when it is to be printed. -/
  output : Option String
  deriving DecidableEq, Repr

namespace FileReport

def toValue (r : FileReport) : Value :=
  let reason := match r.status.reason? with
    | some text => [("reason", Value.text text)]
    | none => []
  .table ([("calls", .ofNat r.calls), ("file", .text r.file)] ++ reason ++
    [("status", .text r.status.word)])

/-- The line for a file. A file without calls has one on request only. -/
def lines (verbose : Bool) (r : FileReport) : List String :=
  match r.status with
  | .stripped => ["  Stripped: " ++ r.file ++ " (" ++ toString r.calls ++ " removed)"]
  | .wouldStrip => ["  Would strip " ++ toString r.calls ++ " call(s) in " ++ r.file]
  | .unchanged => if verbose then ["  Unchanged: " ++ r.file] else []
  | .readFailed e => ["  Skip: " ++ r.file ++ ": " ++ e.message]
  | .writeFailed e => ["  Skip: " ++ r.file ++ ": " ++ e.message]
  | .parseFailed e => ["  Parse error: " ++ r.file ++ ": " ++ e.message]

end FileReport

/-! ## Totals -/

/-- Totals over all files. -/
structure Summary where
  files : Nat
  changed : Nat
  calls : Nat
  failed : Nat
  deriving DecidableEq, Repr

namespace Summary

/-- Counts a file. A file that failed counts as nothing else. -/
def count (s : Summary) (r : FileReport) : Summary :=
  if r.status.isFailure then { s with failed := s.failed + 1 }
  else if 0 < r.calls then { s with changed := s.changed + 1, calls := s.calls + r.calls }
  else s

def ofReports (rs : List FileReport) : Summary := rs.foldl count ⟨rs.length, 0, 0, 0⟩

def toValue (s : Summary) : Value :=
  .table [("calls", .ofNat s.calls), ("changed", .ofNat s.changed), ("failed", .ofNat s.failed),
    ("files", .ofNat s.files)]

end Summary

/-! ## Tables -/

/-- A line across a table. -/
def tableRule (left fill middle right : String) (widths : List Nat) : String :=
  left ++ middle.intercalate (widths.map (fun w => String.join (List.replicate (w + 2) fill))) ++
    right

/-- A row of a table, each cell filled up to its width. -/
def tableRow (widths : List Nat) (cells : List String) : String :=
  "│ " ++ " ┆ ".intercalate ((cells.zip widths).map (fun c =>
    c.1 ++ String.join (List.replicate (c.2 - c.1.length) " "))) ++ " │"

/-- A table of one row under its headers. -/
def tableLines (headers row : List String) : List String :=
  let widths := (headers.zip row).map (fun c => max c.1.length c.2.length)
  [tableRule "┌" "─" "┬" "┐" widths, tableRow widths headers, tableRule "╞" "═" "╪" "╡" widths,
    tableRow widths row, tableRule "└" "─" "┴" "┘" widths]

def Summary.tableLines (s : Summary) (dry : Bool) : List String :=
  LogSweep.tableLines
    ["Files", if dry then "Would change" else "Changed",
      if dry then "Calls to strip" else "Calls stripped", "Failed"]
    [toString s.files, toString s.changed, toString s.calls, toString s.failed]

/-! ## Sweeps -/

/-- The report of a sweep as data. -/
def sweepJson (rs : List FileReport) : String :=
  Data.Json.pretty 0 (.table [("files", .list (rs.map FileReport.toValue)),
    ("summary", (Summary.ofReports rs).toValue)]) ++ "\n"

/-- The report of a sweep for readers. -/
def sweepText (rs : List FileReport) (dry verbose quiet : Bool) : String :=
  let head := if dry then ["[DRY-RUN] Logging calls that would be stripped:"] else []
  let table := if quiet then [] else "" :: (Summary.ofReports rs).tableLines dry
  Text.unlines (head ++ rs.flatMap (FileReport.lines verbose) ++ table)

/-! ## Scans -/

/-- A call that was found. -/
structure FoundCall where
  file : String
  line : Nat
  column : Nat
  span : Span
  text : String
  deriving DecidableEq, Repr

/-- A file that could not be scanned. -/
structure ScanFailure where
  file : String
  reason : String
  deriving DecidableEq, Repr

structure ScanReport where
  found : List FoundCall
  failures : List ScanFailure
  deriving DecidableEq, Repr

namespace FoundCall

def toValue (c : FoundCall) : Value :=
  .table [("file", .text c.file), ("line", .ofNat c.line), ("column", .ofNat c.column),
    ("start", .ofNat c.span.start), ("end", .ofNat c.span.stop), ("call", .text c.text)]

/-- The first line of a call, with a mark when there are more. -/
def firstLine (text : String) : String :=
  let cs := text.toList
  let head := cs.takeWhile (· ≠ '\n')
  if head.length < cs.length then
    String.ofList (Text.trimEndBy Text.isSpace head ++ [' ', '…'])
  else text

def display (c : FoundCall) : String :=
  c.file ++ ":" ++ toString c.line ++ ":" ++ toString c.column ++ ": " ++ firstLine c.text

end FoundCall

namespace ScanReport

/-- Files in order, all calls of one before those of the next. -/
def ofResults (rs : List (Except ScanFailure (List FoundCall))) : ScanReport where
  found := rs.flatMap (fun r => match r with
    | .ok calls => calls
    | .error _ => [])
  failures := rs.filterMap (fun r => match r with
    | .ok _ => none
    | .error f => some f)

def exitCode (r : ScanReport) : Nat := if r.failures.isEmpty then 0 else 1

def json (r : ScanReport) : String :=
  let failure := fun (f : ScanFailure) =>
    Value.table [("file", .text f.file), ("reason", .text f.reason)]
  Data.Json.pretty 0 (.table [("matches", .list (r.found.map FoundCall.toValue)),
    ("failures", .list (r.failures.map failure))]) ++ "\n"

/-- How many runs of equal names there are. -/
def runs : List String → Nat
  | [] => 0
  | [_] => 1
  | a :: b :: rest => (if a = b then 0 else 1) + runs (b :: rest)

def text (r : ScanReport) : String :=
  let failure := fun (f : ScanFailure) => "Parse error: " ++ f.file ++ ": " ++ f.reason
  Text.unlines (r.found.map FoundCall.display ++ r.failures.map failure ++
    ["", "Found " ++ toString r.found.length ++ " logging call(s) in " ++
      toString (runs (r.found.map FoundCall.file)) ++ " file(s)"])

end ScanReport

end LogSweep

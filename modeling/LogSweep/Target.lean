-- Targets: the methods whose calls are swept, and the sets of them that a user gives.
import LogSweep.Text.Word

namespace LogSweep

/-- A method and the dotted path of the object it belongs to. -/
structure Target where
  path : String
  method : String
  deriving DecidableEq, Repr

/-- A text that is no target. -/
structure InvalidTarget where
  text : String
  deriving DecidableEq, Repr

def InvalidTarget.message (e : InvalidTarget) : String :=
  "invalid target `" ++ e.text ++ "`: expected a dotted name such as `console.log`"

namespace Target

/-- The target as it is written. -/
def display (t : Target) : String := t.path ++ "." ++ t.method

def isSegmentStart (c : Char) : Bool := c.isAlpha || c = '_' || c = '$'

/-- Whether a text may stand between two dots of a target. -/
def isSegment : List Char → Bool
  | [] => false
  | c :: cs => isSegmentStart c && cs.all (fun d => Text.isWordChar d || d = '$')

/-- Reads a dotted name of at least two segments; the last one is the method. -/
def parse (text : String) : Except InvalidTarget Target :=
  let trimmed := Text.trim text
  let segments := Text.splitOn '.' trimmed.toList
  if 2 ≤ segments.length && segments.all isSegment then
    .ok ⟨".".intercalate (segments.dropLast.map String.ofList),
      String.ofList (segments.getLast?.getD [])⟩
  else .error ⟨trimmed⟩

end Target

/-! ## Sets of targets -/

/-- Targets in the order of their first insertion, each once. -/
structure TargetSet where
  targets : List Target
  deriving DecidableEq, Repr

namespace TargetSet

def empty : TargetSet := ⟨[]⟩

def contains (s : TargetSet) (t : Target) : Bool := s.targets.contains t

/-- Adds a target at the end. Gives whether it was new. -/
def insert (s : TargetSet) (t : Target) : Bool × TargetSet :=
  if s.contains t then (false, s) else (true, ⟨s.targets ++ [t]⟩)

theorem contains_iff {s : TargetSet} {t : Target} : s.contains t = true ↔ t ∈ s.targets := by
  simp [contains]

theorem insert_of_mem {s : TargetSet} {t : Target} (h : t ∈ s.targets) :
    s.insert t = (false, s) := by
  rw [insert, if_pos (contains_iff.mpr h)]

theorem insert_of_not_mem {s : TargetSet} {t : Target} (h : t ∉ s.targets) :
    s.insert t = (true, ⟨s.targets ++ [t]⟩) := by
  rw [insert, if_neg (mt contains_iff.mp h)]

def ofList (ts : List Target) : TargetSet := ts.foldl (fun s t => (s.insert t).2) empty

/-- Every method on every path, path by path. -/
def cross (paths methods : List String) : TargetSet :=
  ofList (paths.flatMap (fun p => methods.map (fun m => ⟨p, m⟩)))

/-- Reads a list of targets, up to the first that is none. -/
def parseList (texts : List String) : Except InvalidTarget TargetSet := do
  return ofList (← texts.mapM Target.parse)

/-- The objects whose methods are swept unless a user says otherwise. -/
def defaultPaths : List String := ["console", "window.console"]

/-- The methods that are swept unless a user says otherwise. -/
def defaultMethods : List String := ["log", "info", "assert"]

/-- The given methods on the default objects. -/
def ofMethods (methods : List String) : TargetSet := cross defaultPaths methods

def standard : TargetSet := ofMethods defaultMethods

end TargetSet

end LogSweep

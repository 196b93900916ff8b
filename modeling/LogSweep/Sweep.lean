-- Sweeping a source: finding its targeted calls and replacing them.
import LogSweep.Conversion
import LogSweep.Edit
import LogSweep.Matching
import LogSweep.Script.Program
import LogSweep.Strategy
import LogSweep.SyntaxFault

namespace LogSweep

/-- Why a source cannot be swept. -/
inductive SweepError
  | unreadable (fault : SyntaxFault)
  /-- The reading gave no tree. -/
  | aborted
  | edit (error : EditError)
  deriving DecidableEq, Repr

def SweepError.message : SweepError → String
  | .unreadable f => f.message
  | .aborted => "parser produced no syntax tree"
  | .edit e => "failed to rewrite source: " ++ e.message

/-- What to sweep and how. -/
structure SweepOptions where
  targets : TargetSet
  strategy : Option Strategy
  removeSemicolon : Bool
  deriving DecidableEq, Repr

/-- The strategy in force. -/
def SweepOptions.effective (o : SweepOptions) : Strategy :=
  o.strategy.getD (Strategy.standard o.removeSemicolon)

/-- A swept source, and the spans of the old one that were replaced. -/
structure Outcome where
  output : String
  replaced : List Span
  deriving DecidableEq, Repr

def Outcome.changed (o : Outcome) : Bool := !o.replaced.isEmpty

/-- Replaces the calls that were found. -/
def sweepMatches (source : String) (found : List Span) (replace : String → String)
    (removeSemicolon : Bool) : Except EditError Outcome := do
  let edits ← planEdits source found replace removeSemicolon
  let output ← ((EditList.ofSource source).addAll edits).apply
  return ⟨output, edits.map Edit.span⟩

/-! ## Reading and sweeping -/

/-- A way to read sources. Where it does not matter what a tree looks like, any one will do. -/
class Grammar where
  /-- The syntax tree of a source without faults. -/
  tree : String → Except SweepError SyntaxTree

/-- The syntax tree of a script without faults. -/
def scriptTree (source : String) : Except SweepError SyntaxTree :=
  let t := Script.parse source
  if t.hasFault then .error (.unreadable (.ofTree source t))
  else
    match t.toSyntax? source with
    | some s => .ok s
    | none => .error .aborted

/-- Unless something else is said, sources are scripts. -/
instance scripts : Grammar := ⟨scriptTree⟩

section

variable [Grammar]

def syntaxTree (source : String) : Except SweepError SyntaxTree := Grammar.tree source

/-- The targeted calls of a source. -/
def scan (source : String) (targets : TargetSet) : Except SweepError (List Span) := do
  return findMatches (← syntaxTree source).breadthFirst targets

/-- Replaces the targeted calls by what `replace` makes of them. -/
def sweepWith (source : String) (targets : TargetSet) (replace : String → String)
    (removeSemicolon : Bool) : Except SweepError Outcome := do
  let found ← scan source targets
  match sweepMatches source found replace removeSemicolon with
  | .ok o => return o
  | .error e => throw (.edit e)

/-- Replaces the targeted calls as the options say. -/
def sweep (source : String) (o : SweepOptions) : Except SweepError Outcome :=
  sweepWith source o.targets o.effective.apply o.removeSemicolon

end

end LogSweep

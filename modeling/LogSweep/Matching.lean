-- Finding the calls of a tree that a set of targets names. A call inside another one that was
-- found is not found again.
import LogSweep.MemberChain
import LogSweep.Target

namespace LogSweep

/-- The span of a call whose callee is one of the targets. -/
def matchedCall? (targets : TargetSet) : SyntaxTree → Option Span
  | .call span callee _ =>
    match (MemberChain.ofTree? callee).bind MemberChain.split? with
    | some (path, method) => if targets.contains ⟨path, method⟩ then some span else none
    | none => none
  | _ => none

/-- Drops each span that lies inside the last one kept, which is `last`. -/
def collapseAfter (last : Option Span) : List Span → List Span
  | [] => []
  | s :: rest =>
    match last with
    | some k => if k.contains s then collapseAfter last rest else s :: collapseAfter (some s) rest
    | none => s :: collapseAfter (some s) rest

/-- Drops each span that lies inside the last one kept. -/
def collapseNested (spans : List Span) : List Span := collapseAfter none spans

/-- The outermost targeted calls among nodes, by where they start. -/
def findMatches (nodes : List SyntaxTree) (targets : TargetSet) : List Span :=
  collapseNested ((nodes.filterMap (matchedCall? targets)).mergeSort startsBefore)

end LogSweep

-- From the tree of a reading to the tree in which calls are looked for. The conversion keeps
-- its own stack, so that no nesting is too deep for it.
import LogSweep.ParseTree
import LogSweep.SyntaxTree

namespace LogSweep

/-- The form a node takes once its parts are converted. -/
inductive Shape
  | identifier
  | call
  | member
  | other
  deriving DecidableEq, Repr

/-- The form of a node and the nodes it is made from. A call keeps its callee and arguments, a
member access its object and property, and any other node its named children. -/
def ParseTree.plan (t : ParseTree) : Shape × List ParseTree :=
  if identifierKinds.contains t.kind then (.identifier, [])
  else if t.kind = "call_expression" then
    match t.fieldChild? .function, t.fieldChild? .arguments with
    | some f, some a => (.call, [f, a])
    | _, _ => (.other, t.namedChildren)
  else if t.kind = "member_expression" then
    match t.fieldChild? .object, t.fieldChild? .property with
    | some o, some p =>
      if identifierKinds.contains p.kind then (.member, [o, p]) else (.other, t.namedChildren)
    | _, _ => (.other, t.namedChildren)
  else (.other, t.namedChildren)

/-- A node from its form and its converted parts. -/
def SyntaxTree.assemble (source : String) (t : ParseTree) : Shape → List SyntaxTree → SyntaxTree
  | .identifier, _ => .identifier t.span ((t.span.slice? source).getD "")
  | .call, [f, a] => .call t.span f a
  | .member, [o, p] => .member t.span o p
  | _, parts => .other t.kind t.span parts

/-- A node whose parts are being converted: the parts to come, and those done, the latest
first. -/
structure Frame where
  tree : ParseTree
  shape : Shape
  pending : List ParseTree
  built : List SyntaxTree

namespace Frame

def start (t : ParseTree) : Frame := ⟨t, t.plan.1, t.plan.2, []⟩

def finish (source : String) (f : Frame) : SyntaxTree :=
  .assemble source f.tree f.shape f.built.reverse

end Frame

/-- Works on the top of the stack: opens its next part, or closes it and hands it down. -/
def convertStack (source : String) : Nat → List Frame → Option SyntaxTree
  | 0, _ => none
  | _ + 1, [] => none
  | fuel + 1, top :: stack =>
    match top.pending, stack with
    | t :: later, _ => convertStack source fuel (Frame.start t :: { top with pending := later } :: stack)
    | [], parent :: rest =>
      convertStack source fuel ({ parent with built := top.finish source :: parent.built } :: rest)
    | [], [] => some (top.finish source)

/-- The syntax tree of a parse tree. Each node is opened once and closed once. -/
def ParseTree.toSyntax? (source : String) (t : ParseTree) : Option SyntaxTree :=
  convertStack source (2 * t.size) [Frame.start t]

end LogSweep

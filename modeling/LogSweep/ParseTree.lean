-- The tree a reading of source text yields: every node has a kind, a span and children in
-- source order. Nodes of a failed reading carry a fault.
import LogSweep.Span

namespace LogSweep

/-- The part a node plays in its parent, where the parent tells its parts apart. -/
inductive Field
  | function
  | arguments
  | object
  | property
  deriving DecidableEq, Repr

/-- How a node stands in its parent. The grammar has names for its nodes, but none for bare tokens
such as brackets, and a part that a parent tells apart is never one of those. -/
inductive Role
  | bare
  | named (part : Option Field)
  deriving DecidableEq, Repr

/-- What is known of a node without its children. A `missing` node was put in for a token that was
due, an `error` covers text that could not be read. -/
structure Label where
  kind : String
  span : Span
  role : Role := .named none
  missing : Bool := false
  error : Bool := false
  deriving DecidableEq, Repr

namespace Label

def named (l : Label) : Bool :=
  match l.role with
  | .bare => false
  | .named _ => true

def field (l : Label) : Option Field :=
  match l.role with
  | .bare => none
  | .named part => part

end Label

/-- The kinds of node that stand for a name. -/
def identifierKinds : List String :=
  ["identifier", "property_identifier", "private_property_identifier"]

/-- A name is a single token of the grammar, so nothing stands below it. -/
inductive ParseTree
  | name (label : Label) (single : label.kind ∈ identifierKinds)
  | node (label : Label) (composed : label.kind ∉ identifierKinds) (children : List ParseTree)
  deriving Repr

namespace ParseTree

/-- The tree of a label, above some children unless it is that of a name. -/
def make (l : Label) (children : List ParseTree) : ParseTree :=
  if h : l.kind ∈ identifierKinds then .name l h else .node l h children

instance : Inhabited ParseTree := ⟨make { kind := "", span := ⟨0, 0⟩ } []⟩

def label : ParseTree → Label
  | .name l _ => l
  | .node l _ _ => l

def children : ParseTree → List ParseTree
  | .name _ _ => []
  | .node _ _ cs => cs

def kind (t : ParseTree) : String := t.label.kind

def span (t : ParseTree) : Span := t.label.span

/-- The same node in a given part of its parent. -/
def inField (f : Field) : ParseTree → ParseTree
  | .name l h => .name { l with role := .named (some f) } h
  | .node l h cs => .node { l with role := .named (some f) } h cs

/-- The children that are not bare tokens. -/
def namedChildren (t : ParseTree) : List ParseTree := t.children.filter (·.label.named)

/-- The first child in a given part. -/
def fieldChild? (t : ParseTree) (f : Field) : Option ParseTree :=
  t.children.find? (fun c => decide (c.label.field = some f))

/-- The number of nodes. -/
def size : ParseTree → Nat
  | .name _ _ => 1
  | .node _ _ cs => 1 + sizeAll cs
where
  sizeAll : List ParseTree → Nat
    | [] => 0
    | c :: cs => c.size + sizeAll cs

/-- The nodes in source order, parents first. -/
def preorder : ParseTree → List ParseTree
  | .name l h => [.name l h]
  | .node l h cs => .node l h cs :: preorderAll cs
where
  preorderAll : List ParseTree → List ParseTree
    | [] => []
    | c :: cs => c.preorder ++ preorderAll cs

end ParseTree

end LogSweep

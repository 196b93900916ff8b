-- The tree in which calls are looked for. Calls, member accesses and names have forms of their
-- own; every other node keeps its kind and its children.
import LogSweep.Span

namespace LogSweep

inductive SyntaxTree
  /-- `callee(arguments)`. -/
  | call (span : Span) (callee arguments : SyntaxTree)
  /-- `object.property`. -/
  | member (span : Span) (object property : SyntaxTree)
  | identifier (span : Span) (name : String)
  | other (kind : String) (span : Span) (children : List SyntaxTree)
  deriving Repr

namespace SyntaxTree

instance : Inhabited SyntaxTree := ⟨.other "" ⟨0, 0⟩ []⟩

def kind : SyntaxTree → String
  | .call .. => "call_expression"
  | .member .. => "member_expression"
  | .identifier .. => "identifier"
  | .other k _ _ => k

def span : SyntaxTree → Span
  | .call s _ _ | .member s _ _ | .identifier s _ | .other _ s _ => s

/-- The children: callee before arguments, object before property. -/
def children : SyntaxTree → List SyntaxTree
  | .call _ f a => [f, a]
  | .member _ o p => [o, p]
  | .identifier _ _ => []
  | .other _ _ cs => cs

/-- The name, of an identifier. -/
def name? : SyntaxTree → Option String
  | .identifier _ n => some n
  | _ => none

theorem eq_identifier_of_name? {t : SyntaxTree} {n : String} (h : t.name? = some n) :
    ∃ span, t = .identifier span n := by
  cases t with
  | identifier span m =>
    simp only [name?, Option.some.injEq] at h
    exact ⟨span, by rw [h]⟩
  | call => simp [name?] at h
  | member => simp [name?] at h
  | other => simp [name?] at h

mutual

/-- The number of nodes. -/
def size : SyntaxTree → Nat
  | .call _ f a => 1 + f.size + a.size
  | .member _ o p => 1 + o.size + p.size
  | .identifier _ _ => 1
  | .other _ _ cs => 1 + sizeAll cs

def sizeAll : List SyntaxTree → Nat
  | [] => 0
  | c :: cs => c.size + sizeAll cs

end

/-! ## Walking -/

/-- Takes nodes off the front of a queue and puts their children at its end, `n` times. -/
def walkQueue : Nat → List SyntaxTree → List SyntaxTree
  | 0, _ => []
  | _ + 1, [] => []
  | n + 1, t :: queue => t :: walkQueue n (queue ++ t.children)

/-- The nodes, level by level and from left to right. -/
def breadthFirst (root : SyntaxTree) : List SyntaxTree := walkQueue root.size [root]

end SyntaxTree

end LogSweep

-- Member chains: the callees that a target can name, such as `window.console.log`.
-- Parentheses around a link are looked through; anything else is no chain.
import LogSweep.SyntaxTree

namespace LogSweep

inductive MemberChain
  /-- The innermost object. -/
  | name (text : String)
  | member (base : MemberChain) (property : String)
  deriving DecidableEq, Repr

namespace MemberChain

/-- The chain that an expression writes, if it is one. -/
def ofTree? : SyntaxTree → Option MemberChain
  | .identifier _ n => some (.name n)
  | .member _ object property =>
    match property.name?, ofTree? object with
    | some p, some base => some (.member base p)
    | _, _ => none
  | .other "parenthesized_expression" _ [inner] => ofTree? inner
  | _ => none

theorem ofTree?_member (span : Span) (object property : SyntaxTree) :
    ofTree? (.member span object property) =
      property.name?.bind (fun p => (ofTree? object).map (fun base => .member base p)) := by
  rcases hp : property.name? with _ | p <;> rcases hb : ofTree? object with _ | base <;>
    simp [ofTree?, hp, hb]

/-- Parentheses are looked through when they hold one thing. -/
theorem ofTree?_parenthesized (span : Span) (cs : List SyntaxTree) :
    ofTree? (.other "parenthesized_expression" span cs) =
      match cs with
      | [inner] => ofTree? inner
      | _ => none := by
  rcases cs with _ | ⟨a, _ | ⟨b, cs⟩⟩ <;> simp [ofTree?]

theorem ofTree?_other_of_ne {k : String} (h : k ≠ "parenthesized_expression") (span : Span)
    (cs : List SyntaxTree) : ofTree? (.other k span cs) = none := by
  simp [ofTree?, h]

/-- The names of a chain, from the innermost object outwards. -/
def segments : MemberChain → List String
  | .name n => [n]
  | .member base p => base.segments ++ [p]

/-- The chain as it is written in a target. -/
def dotted (c : MemberChain) : String := ".".intercalate c.segments

/-- The object and the method of a chain. A lone name has no method. -/
def split? : MemberChain → Option (String × String)
  | .name _ => none
  | .member base p => some (base.dotted, p)

end MemberChain

end LogSweep
